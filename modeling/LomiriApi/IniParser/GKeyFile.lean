import LomiriApi.Basic
import Mathlib.Logic.Basic

/-!
# The key files of GLib

`IniParser` keeps its data in a `GKeyFile`, which is not part of the repository. So
the functions that it calls are a parameter, `GKeyFile K D F`, over the types of key
files, of file contents and of floating-point numbers; what is relied on is stated
as laws.

- A string argument is a C string. A list argument is a pointer, of type
  `Option (List τ)`; `none` is NULL.
- A getter returns its value together with the `GError` that it has set.
- `KeyFileLaws`: what setting a value does to the getters.
- `StoreLaws`: saving, loading and removing.
-/

namespace LomiriApi

/-- A `GError`, as far as `IniParser` looks at it. -/
structure GError where
  message : Text
  code : Int
deriving DecidableEq, Repr

/-- A list that GLib returns: a pointer and a count. The two need not fit, as far as the
types go; that they do is one of the laws. -/
structure CArray (τ : Type) where
  data : Option (List τ)
  count : Nat
deriving DecidableEq, Repr

/-- The elements that a loop over the count reads; `none` if it reads beyond the list. With
a count of 0 the pointer is not looked at. -/
def CArray.elements {τ : Type} (a : CArray τ) : Option (List τ) :=
  if a.count = 0 then some []
  else a.data.bind fun l => if a.count ≤ l.length then some (l.take a.count) else none

/-- `g_key_file_set_x` and `g_key_file_get_x`, for values that are passed as `α` and
returned as `β`. Pairs of functions share their laws by this. -/
structure ValueFunctions (K α β : Type) where
  set : K → Text → Text → α → K
  get : K → Text → Text → β × Option GError

/-- The values that can be set, by type. -/
inductive IniValue where
  | string (s : Text)
  | int (i : Int32)
  | boolean (b : Bool)
  | stringArray (l : List Text)
  | booleanArray (l : List Bool)
  | intArray (l : List Int32)
deriving DecidableEq, Repr

/-- The functions of GLib that `IniParser` calls. As a parameter they may be any that meet
the laws, and no theorem depends on how GLib works inside. -/
structure GKeyFile (K D F : Type) where
  loadFromFile : D → Except GError K
  saveToFile : K → D
  isGroupName : Text → Bool
  isKeyName : Text → Bool
  hasGroup : K → Text → Bool
  hasKey : K → Text → Text → Bool × Option GError
  string : ValueFunctions K Text (Option Text)
  boolean : ValueFunctions K Bool Bool
  integer : ValueFunctions K Int32 Int32
  double : ValueFunctions K F F
  stringList : ValueFunctions K (Option (List Text)) (CArray Text)
  booleanList : ValueFunctions K (Option (List Bool)) (CArray Bool)
  integerList : ValueFunctions K (Option (List Int32)) (CArray Int32)
  doubleList : ValueFunctions K (Option (List F)) (CArray F)
  setLocaleString : K → Text → Text → Text → Text → K
  getLocaleString : K → Text → Text → Option Text → Option Text × Option GError
  setLocaleStringList : K → Text → Text → Text → Option (List Text) → K
  getLocaleStringList : K → Text → Text → Option Text → CArray Text × Option GError
  getStartGroup : K → Option Text
  getGroups : K → CArray Text
  getKeys : K → Text → CArray Text × Option GError
  removeGroup : K → Text → K × Bool × Option GError
  removeKey : K → Text → Text → K × Bool × Option GError

/-! ## What can be read -/

/-- What a group/key pair reads as, as each type; `none` where reading it is an error. Two
pairs with one reading cannot be told apart by the get methods. -/
structure Reading (F : Type) where
  hasKey : Bool
  string : Option Text
  boolean : Option Bool
  integer : Option Int32
  double : Option F
  stringList : Option (List Text)
  booleanList : Option (List Bool)
  integerList : Option (List Int32)
  doubleList : Option (List F)

/-- The groups, keys and values of a key file. Comments and layout are left out, as no
method of `IniParser` can see them. -/
structure Contents (F : Type) where
  groups : Option (List Text)
  keys : Text → Option (List Text)
  value : Text → Text → Reading F

/-- The value that a getter has returned, if it has set no error. The value besides an
error means nothing. -/
def returned {β γ : Type} (convert : β → Option γ) (r : β × Option GError) : Option γ :=
  match r.2 with
  | some _ => none
  | none => convert r.1

namespace GKeyFile

variable {K D F : Type} (G : GKeyFile K D F)

def reading (k : K) (group key : Text) : Reading F where
  hasKey := (returned some (G.hasKey k group key)).getD false
  string := returned id (G.string.get k group key)
  boolean := returned some (G.boolean.get k group key)
  integer := returned some (G.integer.get k group key)
  double := returned some (G.double.get k group key)
  stringList := returned CArray.elements (G.stringList.get k group key)
  booleanList := returned CArray.elements (G.booleanList.get k group key)
  integerList := returned CArray.elements (G.integerList.get k group key)
  doubleList := returned CArray.elements (G.doubleList.get k group key)

def contents (k : K) : Contents F where
  groups := (G.getGroups k).elements
  keys group := returned CArray.elements (G.getKeys k group)
  value := G.reading k

/-- The names under which GLib stores a value. It ignores other ones with no error but a
message on the console. -/
def ValidNames (group key : Text) : Prop := G.isGroupName group = true ∧ G.isKeyName key = true

instance (group key : Text) : Decidable (G.ValidNames group key) :=
  inferInstanceAs (Decidable (_ ∧ _))

end GKeyFile

/-! ## What GLib is assumed to do -/

section Laws

variable {K D F : Type} (G : GKeyFile K D F)

/-- A setter and its getter. `value a` is the value that the argument stands for, `none`
for a NULL list; `WellFormed` says that the strings of the argument are C strings. What is
set reads as this value, and all else reads as before. -/
structure ValueFunctions.Lawful {α β γ : Type} (fns : ValueFunctions K α β)
    (convert : β → Option γ) (WellFormed : α → Prop) (value : α → Option γ) : Prop where
  /-- an accepted value is returned unchanged -/
  get_set : ∀ k group key a v, G.ValidNames group key → WellFormed a → value a = some v →
    returned convert (fns.get (fns.set k group key a) group key) = some v
  hasKey_set : ∀ k group key a v, G.ValidNames group key → WellFormed a → value a = some v →
    G.hasKey (fns.set k group key a) group key = (true, none)
  /-- no other key is touched -/
  reading_set : ∀ k group key a group' key', (group', key') ≠ (group, key) →
    G.reading (fns.set k group key a) group' key' = G.reading k group' key'
  /-- an invalid name is ignored -/
  set_invalid : ∀ k group key a, ¬ G.ValidNames group key → fns.set k group key a = k
  /-- a NULL list is ignored -/
  set_null : ∀ k group key a, value a = none → fns.set k group key a = k

structure KeyFileLaws : Prop where
  string : G.string.Lawful G id NulFree some
  boolean : G.boolean.Lawful G some (fun _ => True) some
  integer : G.integer.Lawful G some (fun _ => True) some
  stringList : G.stringList.Lawful G CArray.elements (fun l => ∀ ss ∈ l, ∀ s ∈ ss, NulFree s) id
  booleanList : G.booleanList.Lawful G CArray.elements (fun _ => True) id
  integerList : G.integerList.Lawful G CArray.elements (fun _ => True) id

structure StoreLaws : Prop where
  /-- load after save gives back the same groups, keys and values -/
  load_save : ∀ k, ∃ k', G.loadFromFile (G.saveToFile k) = .ok k' ∧ G.contents k' = G.contents k
  /-- a group that exists is removed -/
  removeGroup : ∀ k group, G.hasGroup k group = true → ∃ k' rval,
    G.removeGroup k group = (k', rval, none) ∧ (G.contents k').groups ≠ (G.contents k).groups
  /-- a group that does not exist is an error -/
  removeGroup_error : ∀ k group, G.hasGroup k group = false →
    ∃ rval e, G.removeGroup k group = (k, rval, some e)
  /-- a key that exists is removed -/
  removeKey : ∀ k group key, (G.reading k group key).hasKey = true → ∃ k' rval,
    G.removeKey k group key = (k', rval, none) ∧ (G.reading k' group key).hasKey = false
  /-- a key that does not exist is an error -/
  removeKey_error : ∀ k group key, (G.reading k group key).hasKey = false →
    ∃ rval e, G.removeKey k group key = (k, rval, some e)

end Laws

end LomiriApi
