import LomiriApi.IniParser.GKeyFile
import LomiriApi.Exception.Basic
import Mathlib.Algebra.Group.Int.Defs
import Mathlib.Algebra.Group.Nat.Defs

/-!
# `lomiri::util::IniParser` (IniParser.cpp)

The methods of the class over the functions of GLib. The read methods differ in the
function that they call and in the conversion of what it returns (`getValue`), the
set methods in the argument that they build (`setValue`). A call ends in a
`CallResult`: it returns, it throws, or the program is lost (`g_new` aborts, a null
pointer is read).

The lock that every method takes makes the calls of several threads a sequence; it
has no other effect and is left out.
-/

namespace LomiriApi

/-- How a call ends. -/
inductive CallResult (α : Type) where
  | ok (a : α)
  | throws (e : Exception Empty)
  | crash
deriving DecidableEq, Repr

/-- The value that was returned. -/
def CallResult.value? {α : Type} : CallResult α → Option α
  | ok a => some a
  | _ => none

/-- `IniParserPrivate`. -/
structure IniParser (K : Type) where
  k : K
  filename : Text
  dirty : Bool
deriving DecidableEq, Repr

/-- What `inspect_error()` throws. -/
def inspectError (e : Option GError) (pre filename group : Text) : Option (Exception Empty) :=
  e.map fun e =>
    let message := pre
    let message := message ++ " ("
    let message := message ++ filename
    let message := message ++ ", group: "
    let message := message ++ group
    let message := message ++ "): "
    let message := message ++ e.message
    logicException none message

/-- `int count = value.size()`. -/
def intOfSize (n : Nat) : Int := (BitVec.ofNat 32 n).toInt

/-- The list that `set_string_array` builds: `g_new(gchar*, count+1)` aborts on a
negative count, and the terminator of an empty array would be written through NULL.
`count+1` must not overflow. -/
def newStringList (value : List Text) : Option (List Text) :=
  let count := intOfSize value.length
  if 0 ≤ count ∧ count < 2 ^ 31 - 1 then some ((value.take count.toNat).map cStr) else none

/-- The list that the other array methods build: `g_new(T, count)` aborts on a
negative count and is NULL for a count of 0. -/
def newList {τ : Type} (value : List τ) : Option (Option (List τ)) :=
  let count := intOfSize value.length
  if count < 0 then none
  else if count = 0 then some none
  else some (some (value.take count.toNat))

namespace IniParser

variable {K D F : Type} (G : GKeyFile K D F)

/-- The constructor, on a file with the given contents. -/
def load (filename : Text) (file : D) : CallResult (IniParser K) :=
  match G.loadFromFile file with
  | .error e =>
    .throws (fileException none ("Could not load ini file " ++ filename ++ ": " ++ e.message)
      e.code)
  | .ok kf => .ok ⟨kf, filename, false⟩

/-! ## Read methods -/

section Read

variable (p : IniParser K)

/-- What the read methods have in common: inspect the error, which throws if one was set,
then convert the value. The conversion is where a NULL can be read: that is `crash`. -/
def getValue {β γ : Type} (convert : β → Option γ) (pre : Text) (group : Text)
    (r : β × Option GError) : CallResult γ :=
  match inspectError r.2 pre p.filename group with
  | some e => .throws e
  | none =>
    match convert r.1 with
    | some result => .ok result
    | none => .crash

/-- `has_group()`, the one read method that cannot fail. -/
def hasGroup (group : Text) : Bool := G.hasGroup p.k (cStr group)

/-- `has_key()` -/
def hasKey (group key : Text) : CallResult Bool :=
  p.getValue some "Error checking for key existence" group (G.hasKey p.k (cStr group) (cStr key))

/-- `get_string()`; a pointer that is NULL without an error would crash in the constructor
of the `std::string`. -/
def getString (group key : Text) : CallResult Text :=
  p.getValue id "Could not get string value" group (G.string.get p.k (cStr group) (cStr key))

/-- `get_locale_string()`: an empty locale stands for that of the program, which GLib is
told by NULL. -/
def getLocaleString (group key locale : Text) : CallResult Text :=
  p.getValue id "Could not get localized string value" group
    (G.getLocaleString p.k (cStr group) (cStr key)
      (if locale = [] then none else some (cStr locale)))

/-- `get_boolean()` -/
def getBoolean (group key : Text) : CallResult Bool :=
  p.getValue some "Could not get boolean value" group (G.boolean.get p.k (cStr group) (cStr key))

/-- `get_int()` -/
def getInt (group key : Text) : CallResult Int32 :=
  p.getValue some "Could not get integer value" group (G.integer.get p.k (cStr group) (cStr key))

/-- `get_double()` -/
def getDouble (group key : Text) : CallResult F :=
  p.getValue some "Could not get double value" group (G.double.get p.k (cStr group) (cStr key))

/-- `get_string_array()`: the loop goes as far as the count that GLib gives. -/
def getStringArray (group key : Text) : CallResult (List Text) :=
  p.getValue CArray.elements "Could not get string array" group
    (G.stringList.get p.k (cStr group) (cStr key))

/-- `get_locale_string_array()` -/
def getLocaleStringArray (group key locale : Text) : CallResult (List Text) :=
  p.getValue CArray.elements "Could not get localized string array" group
    (G.getLocaleStringList p.k (cStr group) (cStr key)
      (if locale = [] then none else some (cStr locale)))

/-- `get_boolean_array()` -/
def getBooleanArray (group key : Text) : CallResult (List Bool) :=
  p.getValue CArray.elements "Could not get boolean array" group
    (G.booleanList.get p.k (cStr group) (cStr key))

/-- `get_int_array()` -/
def getIntArray (group key : Text) : CallResult (List Int32) :=
  p.getValue CArray.elements "Could not get integer array" group
    (G.integerList.get p.k (cStr group) (cStr key))

/-- `get_double_array()` -/
def getDoubleArray (group key : Text) : CallResult (List F) :=
  p.getValue CArray.elements "Could not get double array" group
    (G.doubleList.get p.k (cStr group) (cStr key))

/-- `get_start_group()`. GLib returns NULL for a file without groups and sets no error, so
nothing keeps the source from making a string of it. -/
def getStartGroup : CallResult Text :=
  match G.getStartGroup p.k with
  | some sg => .ok sg
  | none => .crash  -- `string result(sg)` on NULL

/-- `get_groups()` -/
def getGroups : CallResult (List Text) :=
  match (G.getGroups p.k).elements with
  | some result => .ok result
  | none => .crash

/-- `get_keys()` -/
def getKeys (group : Text) : CallResult (List Text) :=
  p.getValue CArray.elements "Could not get list of keys" group (G.getKeys p.k (cStr group))

/-- What the pair reads as, by the read methods. -/
def read (group key : Text) : Reading F where
  hasKey := (p.hasKey G group key).value?.getD false
  string := (p.getString G group key).value?
  boolean := (p.getBoolean G group key).value?
  integer := (p.getInt G group key).value?
  double := (p.getDouble G group key).value?
  stringList := (p.getStringArray G group key).value?
  booleanList := (p.getBooleanArray G group key).value?
  integerList := (p.getIntArray G group key).value?
  doubleList := (p.getDoubleArray G group key).value?

end Read

/-! ## Write methods

Each gives the parser after the call and how the call ends. -/

section Write

variable (p : IniParser K)

/-- What the set methods have in common: build the argument, call the setter, mark the
parser. It is marked whether GLib has taken the value or not, as the setters return
nothing. -/
def setValue {α : Type} (set : K → α → K) (arg : Option α) : IniParser K × CallResult Unit :=
  match arg with
  | none => (p, .crash)
  | some a => ({ p with k := set p.k a, dirty := true }, .ok ())

/-- `set_string()` -/
def setString (group key value : Text) : IniParser K × CallResult Unit :=
  p.setValue (fun k => G.string.set k (cStr group) (cStr key)) (some (cStr value))

/-- `set_locale_string()` -/
def setLocaleString (group key value locale : Text) : IniParser K × CallResult Unit :=
  p.setValue (fun k => G.setLocaleString k (cStr group) (cStr key) (cStr locale))
    (some (cStr value))

/-- `set_boolean()` -/
def setBoolean (group key : Text) (value : Bool) : IniParser K × CallResult Unit :=
  p.setValue (fun k => G.boolean.set k (cStr group) (cStr key)) (some value)

/-- `set_int()` -/
def setInt (group key : Text) (value : Int32) : IniParser K × CallResult Unit :=
  p.setValue (fun k => G.integer.set k (cStr group) (cStr key)) (some value)

/-- `set_double()` -/
def setDouble (group key : Text) (value : F) : IniParser K × CallResult Unit :=
  p.setValue (fun k => G.double.set k (cStr group) (cStr key)) (some value)

/-- `set_string_array()`, whose array has a terminator. So it is not NULL for an empty
vector, as those of the other methods are. -/
def setStringArray (group key : Text) (value : List Text) : IniParser K × CallResult Unit :=
  p.setValue (fun k => G.stringList.set k (cStr group) (cStr key)) ((newStringList value).map some)

/-- `set_locale_string_array()` -/
def setLocaleStringArray (group key : Text) (value : List Text) (locale : Text) :
    IniParser K × CallResult Unit :=
  p.setValue (fun k => G.setLocaleStringList k (cStr group) (cStr key) (cStr locale))
    ((newStringList value).map some)

/-- `set_boolean_array()` -/
def setBooleanArray (group key : Text) (value : List Bool) : IniParser K × CallResult Unit :=
  p.setValue (fun k => G.booleanList.set k (cStr group) (cStr key)) (newList value)

/-- `set_int_array()` -/
def setIntArray (group key : Text) (value : List Int32) : IniParser K × CallResult Unit :=
  p.setValue (fun k => G.integerList.set k (cStr group) (cStr key)) (newList value)

/-- `set_double_array()` -/
def setDoubleArray (group key : Text) (value : List F) : IniParser K × CallResult Unit :=
  p.setValue (fun k => G.doubleList.set k (cStr group) (cStr key)) (newList value)

/-- The end of `remove_group` and `remove_key`. Neither marks the parser, although the key
file has changed. -/
def removed (pre group : Text) (r : K × Bool × Option GError) : IniParser K × CallResult Bool :=
  ({ p with k := r.1 },
    match inspectError r.2.2 pre p.filename group with
    | some e => .throws e
    | none => .ok r.2.1)

/-- `remove_group()` -/
def removeGroup (group : Text) : IniParser K × CallResult Bool :=
  p.removed "Error removing group" group (G.removeGroup p.k (cStr group))

/-- `remove_key()` -/
def removeKey (group key : Text) : IniParser K × CallResult Bool :=
  p.removed "Error removing key" group (G.removeKey p.k (cStr group) (cStr key))

/-- `sync()`, on a file with the given contents. `saved` is the error that
`g_key_file_save_to_file` sets if it is called; a save that fails leaves the file as
it was. -/
def sync (file : D) (saved : Option GError) : IniParser K × D × CallResult Unit :=
  if p.dirty then
    match saved with
    | some e =>
      (p, file, .throws (fileException none
        ("Could not write ini file " ++ p.filename ++ ": " ++ e.message) e.code))
    | none => ({ p with dirty := false }, G.saveToFile p.k, .ok ())
  else (p, file, .ok ())

end Write

/-! ## What the methods read and write -/

variable {G} {p : IniParser K}

/-- What a read method returns, whatever its type, is what GLib's getter has returned: the
reason why the laws on getters speak about the methods. -/
theorem value?_getValue {β γ : Type} (convert : β → Option γ) (pre group : Text)
    (r : β × Option GError) :
    (p.getValue convert pre group r).value? = returned convert r := by
  obtain ⟨b, e⟩ := r
  cases e with
  | some e => rfl
  | none =>
    cases h : convert b with
    | none => simp [getValue, inspectError, returned, CallResult.value?, h]
    | some v => simp [getValue, inspectError, returned, CallResult.value?, h]

/-- A value is there exactly if the call has returned it. -/
theorem value?_eq_some {α : Type} {r : CallResult α} {a : α} : r.value? = some a ↔ r = .ok a := by
  cases r <;> simp [CallResult.value?]

/-- The read methods return `v` exactly when the getter does. -/
theorem getValue_eq_ok {β γ : Type} {convert : β → Option γ} {pre group : Text}
    {r : β × Option GError} {v : γ} :
    p.getValue convert pre group r = .ok v ↔ returned convert r = some v := by
  rw [← value?_getValue (p := p) convert pre group r, value?_eq_some]

/-- The read methods see the key file. -/
theorem read_eq (p : IniParser K) (group key : Text) :
    p.read G group key = G.reading p.k (cStr group) (cStr key) := by
  simp only [read, hasKey, getString, getBoolean, getInt, getDouble, getStringArray,
    getBooleanArray, getIntArray, getDoubleArray, value?_getValue, GKeyFile.reading]

end IniParser

end LomiriApi
