import LomiriApi.IniParser.Reads
import LomiriApi.Lib.Sequential

/-!
# `IniParser` among threads

All methods of all parsers take one mutex, `parser_mutex`, which is static in
IniParser.cpp. This module embeds the methods as what they are for other threads,
sequences of statements that are executed with the mutex held.

- `Parsers`: what the mutex guards, that is the private data of the parsers, and the
  files, by name. The parsers are at the addresses `Fin n`.
- `Call`, `Call.body`: the read methods, the write methods and `sync`, statement by
  statement.
- `Call.spec`: the method in one piece, in the words of `IniParser/Basic.lean`;
  `body_run` says that the statements, executed without interruption, come to that.

The constructor and the destructor do not take the mutex: a parser is not shared before
the one and after the other. A call that ends in a crash leaves everything as it is; the
program does not get further.
-/

namespace LomiriApi

open Lib

deriving instance DecidableEq for WriteOp

/-- The parsers, and the files by name. Two parsers may have one file, and then they
overwrite each other's. -/
structure Parsers (n : Nat) (K D : Type) where
  parser : Fin n → IniParser K
  file : Text → D

namespace Parsers

/-- A call of a method of the parser `p`. -/
inductive Call (n : Nat) (F : Type) where
  | read (p : Fin n) (op : ReadOp)
  | write (p : Fin n) (op : WriteOp F)
deriving DecidableEq

/-- How a call ends, by what it returns. Exceptions and crashes are answers too. -/
inductive Answer (F : Type) where
  | boolean (r : CallResult Bool)
  | string (r : CallResult Text)
  | integer (r : CallResult Int32)
  | double (r : CallResult F)
  | stringArray (r : CallResult (List Text))
  | booleanArray (r : CallResult (List Bool))
  | integerArray (r : CallResult (List Int32))
  | doubleArray (r : CallResult (List F))
  | void (r : CallResult Unit)
deriving DecidableEq

/-- The program is lost: a string is made from NULL, a loop runs out of its list, or there
is no memory for a vector whose length was cut. -/
def Answer.isCrash {F : Type} : Answer F → Bool
  | boolean .crash | string .crash | integer .crash | double .crash | stringArray .crash
  | booleanArray .crash | integerArray .crash | doubleArray .crash | void .crash => true
  | _ => false

section Bodies

variable {n : Nat} {K D F : Type}

/-! ## The methods, statement by statement -/

/-- The statements of a method, over the single cell that the mutex guards. -/
abbrev Body (n : Nat) (K D ρ : Type) := Prog Unit (Parsers n K D) ρ

/-- An expression over the private data of a parser. Its value is read when the statement
is executed, and not when the method is called. -/
def member {ρ : Type} (i : Fin n) (f : IniParser K → ρ) : Body n K D ρ := do
  return f ((← Prog.load ()).parser i)

/-- An assignment to the private data of a parser. -/
def assign (i : Fin n) (f : IniParser K → IniParser K) : Body n K D Unit :=
  Prog.modify () fun s => { s with parser := Function.update s.parser i (f (s.parser i)) }

/-- What the read methods have in common. -/
def getValue {β γ : Type} (i : Fin n) (convert : β → Option γ) (pre group : Text)
    (get : K → β × Option GError) : Body n K D (CallResult γ) := do
  let r ← member i fun p => get p.k
  -- inspect_error(e, pre, p->filename, group)
  member i fun p => p.getValue convert pre group r

variable (G : GKeyFile K D F)

def readBody (i : Fin n) : ReadOp → Body n K D (Answer F)
  | .hasGroup group => (.boolean ∘ .ok) <$> member i fun p => G.hasGroup p.k (cStr group)
  | .hasKey group key =>
    .boolean <$> getValue i some "Error checking for key existence" group
      fun k => G.hasKey k (cStr group) (cStr key)
  | .getString group key =>
    .string <$> getValue i id "Could not get string value" group
      fun k => G.string.get k (cStr group) (cStr key)
  | .getLocaleString group key locale =>
    .string <$> getValue i id "Could not get localized string value" group
      fun k => G.getLocaleString k (cStr group) (cStr key)
        (if locale = [] then none else some (cStr locale))
  | .getBoolean group key =>
    .boolean <$> getValue i some "Could not get boolean value" group
      fun k => G.boolean.get k (cStr group) (cStr key)
  | .getInt group key =>
    .integer <$> getValue i some "Could not get integer value" group
      fun k => G.integer.get k (cStr group) (cStr key)
  | .getDouble group key =>
    .double <$> getValue i some "Could not get double value" group
      fun k => G.double.get k (cStr group) (cStr key)
  | .getStringArray group key =>
    .stringArray <$> getValue i CArray.elements "Could not get string array" group
      fun k => G.stringList.get k (cStr group) (cStr key)
  | .getLocaleStringArray group key locale =>
    .stringArray <$> getValue i CArray.elements "Could not get localized string array" group
      fun k => G.getLocaleStringList k (cStr group) (cStr key)
        (if locale = [] then none else some (cStr locale))
  | .getBooleanArray group key =>
    .booleanArray <$> getValue i CArray.elements "Could not get boolean array" group
      fun k => G.booleanList.get k (cStr group) (cStr key)
  | .getIntArray group key =>
    .integerArray <$> getValue i CArray.elements "Could not get integer array" group
      fun k => G.integerList.get k (cStr group) (cStr key)
  | .getDoubleArray group key =>
    .doubleArray <$> getValue i CArray.elements "Could not get double array" group
      fun k => G.doubleList.get k (cStr group) (cStr key)
  | .getStartGroup => .string <$> member i fun p => p.getStartGroup G
  | .getGroups => .stringArray <$> member i fun p => p.getGroups G
  | .getKeys group =>
    .stringArray <$> getValue i CArray.elements "Could not get list of keys" group
      fun k => G.getKeys k (cStr group)

/-- What the set methods have in common. -/
def setValue {α : Type} (i : Fin n) (set : K → α → K) (arg : Option α) :
    Body n K D (CallResult Unit) :=
  match arg with
  | none => return .crash
  | some a => do
    assign i fun p => { p with k := set p.k a }
    assign i fun p => { p with dirty := true }
    return .ok ()

/-- What `remove_group` and `remove_key` have in common. -/
def removed (i : Fin n) (pre group : Text) (remove : K → K × Bool × Option GError) :
    Body n K D (CallResult Bool) := do
  let r ← member i fun p => remove p.k
  assign i fun p => { p with k := r.1 }
  -- inspect_error(e, pre, p->filename, group)
  member i fun p => (p.removed pre group r).2

/-- What `sync()` throws. -/
def saveError (p : IniParser K) (e : GError) : CallResult Unit :=
  .throws (fileException none ("Could not write ini file " ++ p.filename ++ ": " ++ e.message)
    e.code)

/-- `g_key_file_save_to_file`, if it succeeds. -/
def save (i : Fin n) : Body n K D Unit :=
  Prog.modify () fun s =>
    { s with file := Function.update s.file (s.parser i).filename (G.saveToFile (s.parser i).k) }

/-- `sync()`. -/
def sync (i : Fin n) (saved : Option GError) : Body n K D (CallResult Unit) := do
  if ← member i (·.dirty) then
    match saved with
    | some e => member i fun p => saveError p e
    | none => do
      save G i
      assign i fun p => { p with dirty := false }
      return .ok ()
  else
    return .ok ()

def writeBody (i : Fin n) : WriteOp F → Body n K D (Answer F)
  | .setString group key value =>
    .void <$> setValue i (fun k => G.string.set k (cStr group) (cStr key)) (some (cStr value))
  | .setLocaleString group key value locale =>
    .void <$> setValue i (fun k => G.setLocaleString k (cStr group) (cStr key) (cStr locale))
      (some (cStr value))
  | .setBoolean group key value =>
    .void <$> setValue i (fun k => G.boolean.set k (cStr group) (cStr key)) (some value)
  | .setInt group key value =>
    .void <$> setValue i (fun k => G.integer.set k (cStr group) (cStr key)) (some value)
  | .setDouble group key value =>
    .void <$> setValue i (fun k => G.double.set k (cStr group) (cStr key)) (some value)
  | .setStringArray group key value =>
    .void <$> setValue i (fun k => G.stringList.set k (cStr group) (cStr key))
      ((newStringList value).map some)
  | .setLocaleStringArray group key value locale =>
    .void <$> setValue i (fun k => G.setLocaleStringList k (cStr group) (cStr key) (cStr locale))
      ((newStringList value).map some)
  | .setBooleanArray group key value =>
    .void <$> setValue i (fun k => G.booleanList.set k (cStr group) (cStr key)) (newList value)
  | .setIntArray group key value =>
    .void <$> setValue i (fun k => G.integerList.set k (cStr group) (cStr key)) (newList value)
  | .setDoubleArray group key value =>
    .void <$> setValue i (fun k => G.doubleList.set k (cStr group) (cStr key)) (newList value)
  | .removeGroup group =>
    .boolean <$> removed i "Error removing group" group fun k => G.removeGroup k (cStr group)
  | .removeKey group key =>
    .boolean <$> removed i "Error removing key" group
      fun k => G.removeKey k (cStr group) (cStr key)
  | .sync saved => .void <$> sync G i saved

theorem within_unit {ρ : Type} (p : Body n K D ρ) : p.Within [()] := by
  induction p with
  | ret r => trivial
  | read i k ih => exact ⟨List.mem_singleton_self (), ih⟩
  | write i f k ih => exact ⟨List.mem_singleton_self (), ih⟩

/-- `lock_guard<std::mutex> lock(internal::parser_mutex)`. The whole body is in its
scope. -/
def guarded (body : Body n K D (Answer F)) : Section Unit (Parsers n K D) (Answer F) :=
  ⟨[()], List.nodup_cons.mpr ⟨List.not_mem_nil, List.nodup_nil⟩, body, within_unit body⟩

/-- The critical section of each method. -/
def code : Call n F → Section Unit (Parsers n K D) (Answer F)
  | .read i op => guarded (readBody G i op)
  | .write i op => guarded (writeBody G i op)

/-! ## The methods in one piece -/

/-- What a read method answers. -/
def answer (p : IniParser K) : ReadOp → Answer F
  | .hasGroup group => .boolean (.ok (p.hasGroup G group))
  | .hasKey group key => .boolean (p.hasKey G group key)
  | .getString group key => .string (p.getString G group key)
  | .getLocaleString group key locale => .string (p.getLocaleString G group key locale)
  | .getBoolean group key => .boolean (p.getBoolean G group key)
  | .getInt group key => .integer (p.getInt G group key)
  | .getDouble group key => .double (p.getDouble G group key)
  | .getStringArray group key => .stringArray (p.getStringArray G group key)
  | .getLocaleStringArray group key locale =>
    .stringArray (p.getLocaleStringArray G group key locale)
  | .getBooleanArray group key => .booleanArray (p.getBooleanArray G group key)
  | .getIntArray group key => .integerArray (p.getIntArray G group key)
  | .getDoubleArray group key => .doubleArray (p.getDoubleArray G group key)
  | .getStartGroup => .string (p.getStartGroup G)
  | .getGroups => .stringArray (p.getGroups G)
  | .getKeys group => .stringArray (p.getKeys G group)

/-- What a method that changes the private data only does to parser and file. -/
def wrote {α : Type} (s : IniFile K D) (toAnswer : CallResult α → Answer F)
    (r : IniParser K × CallResult α) : IniFile K D × Answer F :=
  ({ s with parser := r.1 }, toAnswer r.2)

/-- What a write method does to parser and file, and its answer. `IniFile.step` is this
without the answer, as `write_step` says. -/
def write (s : IniFile K D) : WriteOp F → IniFile K D × Answer F
  | .setString group key value => wrote s .void (s.parser.setString G group key value)
  | .setLocaleString group key value locale =>
    wrote s .void (s.parser.setLocaleString G group key value locale)
  | .setBoolean group key value => wrote s .void (s.parser.setBoolean G group key value)
  | .setInt group key value => wrote s .void (s.parser.setInt G group key value)
  | .setDouble group key value => wrote s .void (s.parser.setDouble G group key value)
  | .setStringArray group key value => wrote s .void (s.parser.setStringArray G group key value)
  | .setLocaleStringArray group key value locale =>
    wrote s .void (s.parser.setLocaleStringArray G group key value locale)
  | .setBooleanArray group key value => wrote s .void (s.parser.setBooleanArray G group key value)
  | .setIntArray group key value => wrote s .void (s.parser.setIntArray G group key value)
  | .setDoubleArray group key value => wrote s .void (s.parser.setDoubleArray G group key value)
  | .removeGroup group => wrote s .boolean (s.parser.removeGroup G group)
  | .removeKey group key => wrote s .boolean (s.parser.removeKey G group key)
  | .sync saved =>
    let r := s.parser.sync G s.file saved
    (⟨r.1, r.2.1⟩, .void r.2.2)

/-- A parser and its file. -/
def iniFile (s : Parsers n K D) (i : Fin n) : IniFile K D :=
  ⟨s.parser i, s.file (s.parser i).filename⟩

/-- Bring a parser and its file into a new state. The file is the one by the name that the
parser has. -/
def put (s : Parsers n K D) (i : Fin n) (t : IniFile K D) : Parsers n K D where
  parser := Function.update s.parser i t.parser
  file := Function.update s.file (s.parser i).filename t.file

/-- What a call does, and its answer. -/
def spec : Call n F → (Unit → Parsers n K D) → (Unit → Parsers n K D) × Answer F
  | .read i op, m => (m, answer G ((m ()).parser i) op)
  | .write i op, m =>
    let (t, a) := write G ((m ()).iniFile i) op
    (fun _ => (m ()).put i t, a)

/-! ## Both are the same -/

@[simp] theorem run_member {ρ : Type} (i : Fin n) (f : IniParser K → ρ)
    (m : Unit → Parsers n K D) : (member i f).run m = (m, f ((m ()).parser i)) := by
  simp [member]

@[simp] theorem run_assign (i : Fin n) (f : IniParser K → IniParser K)
    (m : Unit → Parsers n K D) :
    (assign i f).run m = (fun _ => (m ()).put i { (m ()).iniFile i with
      parser := f ((m ()).parser i) }, ()) := by
  refine Prod.ext (funext fun _ => ?_) rfl
  simp [assign, put, iniFile]

theorem run_getValue {β γ : Type} (i : Fin n) (convert : β → Option γ) (pre group : Text)
    (get : K → β × Option GError) (m : Unit → Parsers n K D) :
    (getValue i convert pre group get).run m
      = (m, ((m ()).parser i).getValue convert pre group (get ((m ()).parser i).k)) := by
  simp [getValue]

theorem run_setValue {α : Type} (i : Fin n) (set : K → α → K) (arg : Option α)
    (m : Unit → Parsers n K D) :
    (setValue i set arg).run m = (fun _ => (m ()).put i { (m ()).iniFile i with
      parser := (((m ()).parser i).setValue set arg).1 },
        (((m ()).parser i).setValue set arg).2) := by
  cases arg <;> simp [setValue, IniParser.setValue, put, iniFile]

theorem run_removed (i : Fin n) (pre group : Text) (remove : K → K × Bool × Option GError)
    (m : Unit → Parsers n K D) :
    (removed i pre group remove).run m = (fun _ => (m ()).put i { (m ()).iniFile i with
      parser := (((m ()).parser i).removed pre group (remove ((m ()).parser i).k)).1 },
        (((m ()).parser i).removed pre group (remove ((m ()).parser i).k)).2) := by
  simp [removed, IniParser.removed, put, iniFile]

theorem run_sync (i : Fin n) (saved : Option GError) (m : Unit → Parsers n K D) :
    (sync G i saved).run m =
      (fun _ => (m ()).put i
        ⟨(((m ()).parser i).sync G ((m ()).iniFile i).file saved).1,
          (((m ()).parser i).sync G ((m ()).iniFile i).file saved).2.1⟩,
        (((m ()).parser i).sync G ((m ()).iniFile i).file saved).2.2) := by
  cases hd : ((m ()).parser i).dirty with
  | false => simp [sync, IniParser.sync, put, iniFile, hd]
  | true =>
    cases saved with
    | none => simp [sync, save, IniParser.sync, put, iniFile, hd]
    | some e => simp [sync, IniParser.sync, put, iniFile, hd, saveError]

theorem run_readBody (i : Fin n) (op : ReadOp) (m : Unit → Parsers n K D) :
    (readBody G i op).run m = (m, answer G ((m ()).parser i) op) := by
  cases op with
  | hasGroup | getStartGroup | getGroups => rfl
  | hasKey | getString | getLocaleString | getBoolean | getInt | getDouble | getStringArray
  | getLocaleStringArray | getBooleanArray | getIntArray | getDoubleArray | getKeys =>
    rw [readBody, Prog.run_map, run_getValue]
    rfl

theorem run_writeBody (i : Fin n) (op : WriteOp F) (m : Unit → Parsers n K D) :
    (writeBody G i op).run m
      = (fun _ => (m ()).put i (write G ((m ()).iniFile i) op).1,
        (write G ((m ()).iniFile i) op).2) := by
  cases op with
  | setString | setLocaleString | setBoolean | setInt | setDouble | setStringArray
  | setLocaleStringArray | setBooleanArray | setIntArray | setDoubleArray =>
    rw [writeBody, Prog.run_map, run_setValue]
    rfl
  | removeGroup | removeKey =>
    rw [writeBody, Prog.run_map, run_removed]
    rfl
  | sync saved =>
    rw [writeBody, Prog.run_map, run_sync]
    rfl

/-- The statements of a method, executed without interruption, come to what the method
does. It is the only place where both versions of the methods are compared. -/
theorem body_run (c : Call n F) (m : Unit → Parsers n K D) :
    (code G c).body.run m = spec G c m := by
  cases c with
  | read i op => exact run_readBody G i op m
  | write i op => exact run_writeBody G i op m

end Bodies

end Parsers

end LomiriApi
