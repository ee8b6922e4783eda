import LomiriApi.IniParser.Locale
import LomiriApi.IniParser.Sync
import LomiriApi.Lib.Simulation
import Mathlib.Logic.Function.Basic

/-!
# A parser is a store

What an `IniParser` is for: a map from group/key pairs to values, with a copy on disk.

- `Store`: the abstract store. It knows of each pair what was last set for it, that it
  was removed, or nothing, so that it is as in the file that was loaded; it knows this
  of the memory and of the file.
- `Store.Shows`: a parser and its file are in the state that the store says.
- `Store.refined_by`: a run of set methods, removals and `sync` calls, some of which
  fail, goes through, and comes to what the store says; so does a parser that loads the
  file later.

The removal methods change the memory of the store and leave `unsaved` alone, as they do
in the source. The set methods for floating-point numbers are not among the calls: what
such a number reads as depends on how GLib prints it.
-/

namespace LomiriApi

open Lib
open ListKeyFile (localeKey)

/-- What is known of a group/key pair. Values of a file that nobody has set stay abstract,
as the store need not know how GLib parses them. -/
inductive Entry where
  /-- it is as it was in the file that was loaded -/
  | loaded
  | value (v : IniValue)
  | absent
deriving DecidableEq, Repr

/-- The abstract store. Pairs are the C strings that GLib sees. A call of `sync` copies the
memory to the file, and the other calls leave the file alone. -/
structure Store where
  memory : Text × Text → Entry
  file : Text × Text → Entry
  unsaved : Bool

/-- The calls that change a store. `saved` is the error of the save, if it fails. They are
those of `IniParser`, with the value types brought together. -/
inductive StoreOp where
  | set (group key : Text) (v : IniValue)
  | setLocale (group key locale : Text) (v : LocaleValue)
  | removeGroup (group : Text)
  | removeKey (group key : Text)
  | sync (saved : Option GError)
deriving DecidableEq, Repr

namespace Store

/-- A file has just been loaded. -/
def fresh : Store := ⟨fun _ => .loaded, fun _ => .loaded, false⟩

def apply (a : Store) : StoreOp → Store
  | .set group key v =>
    { a with memory := Function.update a.memory (cStr group, cStr key) (.value v), unsaved := true }
  | .setLocale group key locale v =>
    { a with
      memory := Function.update a.memory (cStr group, localeKey (cStr key) (cStr locale))
        (.value v.iniValue)
      unsaved := true }
  | .removeGroup group =>
    { a with memory := fun pair => if pair.1 = cStr group then .absent else a.memory pair }
  | .removeKey group key =>
    { a with memory := Function.update a.memory (cStr group, cStr key) .absent }
  | .sync saved =>
    if a.unsaved && saved.isNone then { a with file := a.memory, unsaved := false } else a

end Store

namespace StoreOp

variable {K D F : Type} (G : GKeyFile K D F)

/-- The call of `IniParser`. -/
def writeOp : StoreOp → WriteOp F
  | set group key (.string s) => .setString group key s
  | set group key (.int i) => .setInt group key i
  | set group key (.boolean b) => .setBoolean group key b
  | set group key (.stringArray l) => .setStringArray group key l
  | set group key (.booleanArray l) => .setBooleanArray group key l
  | set group key (.intArray l) => .setIntArray group key l
  | setLocale group key locale (.string s) => .setLocaleString group key s locale
  | setLocale group key locale (.stringArray l) => .setLocaleStringArray group key l locale
  | removeGroup group => .removeGroup group
  | removeKey group key => .removeKey group key
  | sync saved => .sync saved

/-- What is set can be stored. It is the condition of `keeps_iff`, with names that GLib
takes. -/
def Accepted : StoreOp → Prop
  | set group key v => G.ValidNames (cStr group) (cStr key) ∧ v.NulFree ∧ v.Fits
  | setLocale group key locale v =>
    G.ValidNames (cStr group) (localeKey (cStr key) (cStr locale)) ∧
      v.iniValue.NulFree ∧ v.iniValue.Fits
  | _ => True

end StoreOp

/-- The value is what a pair with this reading has. Which getter is meant depends on the
type of the value. -/
def IniValue.ShownBy {F : Type} (v : IniValue) (r : Reading F) : Prop :=
  r.hasKey = true ∧
    match v with
    | .string s => r.string = some s
    | .int i => r.integer = some i
    | .boolean b => r.boolean = some b
    | .stringArray l => r.stringList = some l
    | .booleanArray l => r.booleanList = some l
    | .intArray l => r.integerList = some l

/-- What the entry says of a pair that reads as `r`, and has read as `r₀` in the file that
was loaded. A removed pair has no key. -/
def Entry.Holds {F : Type} (r₀ r : Reading F) : Entry → Prop
  | loaded => r = r₀
  | value v => v.ShownBy r
  | absent => r.hasKey = false

section Refinement

variable {K D F : Type} (G : GKeyFile K D F)

/-- All pairs read in `p` as the entries say; `p₀` is the parser that was loaded. -/
def HoldAll (p₀ p : IniParser K) (entries : Text × Text → Entry) : Prop :=
  ∀ group key,
    (entries (cStr group, cStr key)).Holds (p₀.read G group key) (p.read G group key)

/-- The parser and the file are in the state that the store says; the file as what a parser
reads that loads it. The flag is part of it, because it decides whether `sync` saves. -/
structure Store.Shows (p₀ : IniParser K) (a : Store) (s : IniFile K D) : Prop where
  memory : HoldAll G p₀ s.parser a.memory
  file : ∃ p, IniParser.load G s.parser.filename s.file = .ok p ∧ HoldAll G p₀ p a.file
  unsaved : s.parser.dirty = a.unsaved

/-- What else is relied on about the removal of groups and keys: what is removed is gone,
and all other pairs read as before. -/
structure RemovalLaws : Prop where
  /-- a removed group has no keys -/
  removeGroup : ∀ k group key, (G.reading (G.removeGroup k group).1 group key).hasKey = false
  /-- the other groups stay -/
  removeGroup_others : ∀ k group group' key, group' ≠ group →
    G.reading (G.removeGroup k group).1 group' key = G.reading k group' key
  /-- the other keys stay -/
  removeKey_others : ∀ k group key group' key', (group', key') ≠ (group, key) →
    G.reading (G.removeKey k group key).1 group' key' = G.reading k group' key'

end Refinement

/-! ## Entries -/

section Entries

variable {K D F : Type} {G : GKeyFile K D F} {p₀ p p' : IniParser K}
  {entries entries' : Text × Text → Entry}

theorem IniParser.readsAs_iff {group key : Text} {v : IniValue} :
    p.ReadsAs G group key v ↔ v.ShownBy (p.read G group key) := by
  have hkey : p.hasKey G group key = .ok true ↔ (p.read G group key).hasKey = true := by
    rw [← value?_eq_some]
    show _ ↔ (p.hasKey G group key).value?.getD false = true
    cases (p.hasKey G group key).value? <;> simp
  refine and_congr hkey ?_
  cases v <;> exact value?_eq_some.symm

/-- A parser with the same contents holds the same entries. -/
theorem HoldAll.of_contents (h : HoldAll G p₀ p entries)
    (hk : G.contents p'.k = G.contents p.k) : HoldAll G p₀ p' entries := by
  intro group key
  have hread : p'.read G group key = p.read G group key := by
    rw [IniParser.read_eq, IniParser.read_eq]
    exact congrFun (congrFun (congrArg Contents.value hk) _) _
  rw [hread]
  exact h group key

/-- The rule for a call that changes some pairs: what it changes holds, and the rest reads
as before. A set method changes one pair, `remove_group` all those of a group. -/
theorem HoldAll.change (h : HoldAll G p₀ p entries) (Changed : Text × Text → Prop)
    (hchanged : ∀ group key, Changed (cStr group, cStr key) →
      (entries' (cStr group, cStr key)).Holds (p₀.read G group key) (p'.read G group key))
    (hrest : ∀ group key, ¬ Changed (cStr group, cStr key) →
      entries' (cStr group, cStr key) = entries (cStr group, cStr key) ∧
        p'.read G group key = p.read G group key) :
    HoldAll G p₀ p' entries' := by
  intro group key
  by_cases hpair : Changed (cStr group, cStr key)
  · exact hchanged group key hpair
  · obtain ⟨hentry, hread⟩ := hrest group key hpair
    rw [hentry, hread]
    exact h group key

/-- One pair changes. -/
theorem HoldAll.update (h : HoldAll G p₀ p entries) (group key : Text) {e : Entry}
    (he : e.Holds (p₀.read G group key) (p'.read G group key))
    (hrest : ∀ group' key', (cStr group', cStr key') ≠ (cStr group, cStr key) →
      p'.read G group' key' = p.read G group' key') :
    HoldAll G p₀ p' (Function.update entries (cStr group, cStr key) e) := by
  refine h.change (· = (cStr group, cStr key)) ?_ ?_
  · intro group' key' hpair
    obtain ⟨hgroup, hkey⟩ := Prod.mk.inj hpair
    have hread : ∀ q : IniParser K, q.read G group' key' = q.read G group key := by
      intro q
      rw [IniParser.read_eq, IniParser.read_eq, hgroup, hkey]
    rw [hpair, Function.update_self, hread, hread]
    exact he
  · intro group' key' hpair
    exact ⟨Function.update_of_ne hpair _ _, hrest group' key' hpair⟩

end Entries

/-! ## One call -/

section Calls

variable {K D F : Type} {G : GKeyFile K D F}

namespace IniParser

/-- What is accepted is kept. -/
theorem keeps_of_accepted (laws : KeyFileLaws G) (p : IniParser K) {group key : Text}
    {v : IniValue} (hnames : G.ValidNames (cStr group) (cStr key)) (hv : v.NulFree)
    (hfits : v.Fits) : p.Keeps G group key v := by
  cases v with
  | string s =>
    simp only [Keeps, setMethod, setString, cStr_of_nulFree hv]
    exact (keeps_scalar p group key laws.string "Could not get string value" hv).mpr
      (.inl ⟨hnames, trivial⟩)
  | int i =>
    exact (keeps_scalar p group key laws.integer "Could not get integer value" trivial).mpr
      (.inl ⟨hnames, trivial⟩)
  | boolean b =>
    exact (keeps_scalar p group key laws.boolean "Could not get boolean value" trivial).mpr
      (.inl ⟨hnames, trivial⟩)
  | stringArray l =>
    exact (keeps_newStringList p group key laws.stringList "Could not get string array" hv).mpr
      (.inl ⟨hnames, hfits⟩)
  | booleanArray l =>
    exact (keeps_newList p group key laws.booleanList "Could not get boolean array" l).mpr
      (.inl ⟨hnames, hfits⟩)
  | intArray l =>
    exact (keeps_newList p group key laws.integerList "Could not get integer array" l).mpr
      (.inl ⟨hnames, hfits⟩)

/-- A set method never throws: it is lost, or it returns with the flag set. It sets the
flag also if GLib has ignored the value. -/
theorem setMethod_cases (p : IniParser K) (group key : Text) (v : IniValue) :
    (p.setMethod G group key v).2 = .crash ∨
      ∃ k, p.setMethod G group key v = ({ p with k := k, dirty := true }, .ok ()) := by
  have hset : ∀ {α : Type} (set : K → α → K) (arg : Option α),
      (p.setValue set arg).2 = .crash ∨
        ∃ k, p.setValue set arg = ({ p with k := k, dirty := true }, .ok ()) := by
    intro α set arg
    cases arg with
    | none => exact .inl rfl
    | some a => exact .inr ⟨set p.k a, rfl⟩
  cases v <;> exact hset _ _

/-- An accepted set method returns, with the value stored and the flag set. -/
theorem setMethod_accepted (laws : KeyFileLaws G) (p : IniParser K) {group key : Text}
    {v : IniValue} (hnames : G.ValidNames (cStr group) (cStr key)) (hv : v.NulFree)
    (hfits : v.Fits) :
    ∃ k, p.setMethod G group key v = ({ p with k := k, dirty := true }, .ok ()) ∧
      v.ShownBy (IniParser.read G { p with k := k, dirty := true } group key) ∧
        ∀ group' key', (cStr group', cStr key') ≠ (cStr group, cStr key) →
          IniParser.read G { p with k := k, dirty := true } group' key'
            = p.read G group' key' := by
  have hkeeps := keeps_of_accepted laws p hnames hv hfits
  rcases p.setMethod_cases (G := G) group key v with hcrash | ⟨k, hk⟩
  · have hlost : p.setMethod G group key v = ((p.setMethod G group key v).1, .crash) :=
      Prod.ext rfl hcrash
    rw [Keeps, hlost] at hkeeps
    exact hkeeps.elim
  · rw [Keeps, hk] at hkeeps
    exact ⟨k, hk, readsAs_iff.mp hkeeps.1, hkeeps.2⟩

end IniParser

theorem nulFree_cStr (s : Text) : NulFree (cStr s) := by
  intro hmem
  have hne := List.mem_takeWhile_imp hmem
  simp at hne

/-- The name of a localized value has no NUL. -/
theorem cStr_localeKey (key locale : Text) :
    cStr (localeKey (cStr key) (cStr locale)) = localeKey (cStr key) (cStr locale) := by
  refine cStr_of_nulFree fun hmem => ?_
  have hkey := nulFree_cStr key
  have hlocale := nulFree_cStr locale
  unfold NulFree at hkey hlocale
  simp [localeKey, hkey, hlocale] at hmem

/-- A localized value is a value under another key. -/
theorem setLocaleMethod_eq {languages : List Text} (locales : LocaleLaws G languages)
    (p : IniParser K) (group key locale : Text) (v : LocaleValue) :
    p.setLocaleMethod G group key locale v
      = p.setMethod G group (localeKey (cStr key) (cStr locale)) v.iniValue := by
  cases v with
  | string s =>
    have hset : (fun k => G.setLocaleString k (cStr group) (cStr key) (cStr locale))
        = fun k => G.string.set k (cStr group) (localeKey (cStr key) (cStr locale)) :=
      funext fun k => funext fun a => locales.string.set_eq k _ _ _ a
    simp only [IniParser.setLocaleMethod, IniParser.setLocaleString, LocaleValue.iniValue,
      IniParser.setMethod, IniParser.setString, cStr_localeKey, hset]
  | stringArray l =>
    have hset : (fun k => G.setLocaleStringList k (cStr group) (cStr key) (cStr locale))
        = fun k => G.stringList.set k (cStr group) (localeKey (cStr key) (cStr locale)) :=
      funext fun k => funext fun a => locales.stringList.set_eq k _ _ _ a
    simp only [IniParser.setLocaleMethod, IniParser.setLocaleStringArray, LocaleValue.iniValue,
      IniParser.setMethod, IniParser.setStringArray, cStr_localeKey, hset]

theorem step_writeOp_setLocale (s : IniFile K D) (group key locale : Text) (v : LocaleValue) :
    IniFile.step G s (StoreOp.setLocale group key locale v).writeOp
      = s.wrote (s.parser.setLocaleMethod G group key locale v) := by
  cases v <;> rfl

/-- The call of a set method. -/
theorem step_writeOp_set (s : IniFile K D) (group key : Text) (v : IniValue) :
    IniFile.step G s (StoreOp.set group key v).writeOp
      = s.wrote (s.parser.setMethod G group key v) := by
  cases v <;> rfl

/-- A removal goes through, whether there is something to remove or not. -/
theorem wrote_removed_eq (s : IniFile K D) (pre group : Text) (r : K × Bool × Option GError) :
    s.wrote (s.parser.removed pre group r)
      = some { s with parser := { s.parser with k := r.1 } } := by
  obtain ⟨k, rval, e⟩ := r
  cases e <;> rfl

/-- What the laws say of a removed key, whether it was there or not. -/
theorem hasKey_removeKey (store : StoreLaws G) (k : K) (group key : Text) :
    (G.reading (G.removeKey k group key).1 group key).hasKey = false := by
  cases hkey : (G.reading k group key).hasKey with
  | false =>
    obtain ⟨rval, e, hr⟩ := store.removeKey_error _ _ _ hkey
    rw [hr]
    exact hkey
  | true =>
    obtain ⟨k', rval, hr, hgone⟩ := store.removeKey _ _ _ hkey
    rw [hr]
    exact hgone

end Calls

/-! ## Whole runs -/

namespace Store

variable {K D F : Type} {G : GKeyFile K D F} {languages : List Text} {p₀ : IniParser K}
  {a : Store} {s : IniFile K D}

/-- A pair is set. -/
theorem Shows.set (laws : KeyFileLaws G) (h : a.Shows G p₀ s) (group key : Text) {v : IniValue}
    (hnames : G.ValidNames (cStr group) (cStr key)) (hv : v.NulFree) (hfits : v.Fits) :
    ∃ s', s.wrote (s.parser.setMethod G group key v) = some s' ∧
      (a.apply (.set group key v)).Shows G p₀ s' := by
  obtain ⟨k, hk, hread, hothers⟩ := s.parser.setMethod_accepted laws hnames hv hfits
  refine ⟨{ s with parser := { s.parser with k := k, dirty := true } }, ?_, ?_, h.file, rfl⟩
  · rw [hk]
    rfl
  · exact h.memory.update group key hread hothers

/-- A group is removed. -/
theorem Shows.removeGroup (removal : RemovalLaws G) (h : a.Shows G p₀ s) (group : Text) :
    (a.apply (.removeGroup group)).Shows G p₀
      { s with parser := { s.parser with k := (G.removeGroup s.parser.k (cStr group)).1 } } := by
  refine ⟨h.memory.change (·.1 = cStr group) ?_ ?_, h.file, h.unsaved⟩
  · intro group' key' hgroup
    have hentry : (a.apply (.removeGroup group)).memory (cStr group', cStr key') = .absent :=
      if_pos hgroup
    rw [hentry]
    show (IniParser.read G _ group' key').hasKey = false
    rw [IniParser.read_eq, show cStr group' = cStr group from hgroup]
    exact removal.removeGroup _ _ _
  · intro group' key' hgroup
    refine ⟨if_neg hgroup, ?_⟩
    rw [IniParser.read_eq, IniParser.read_eq]
    exact removal.removeGroup_others _ _ _ _ hgroup

/-- A key is removed. -/
theorem Shows.removeKey (store : StoreLaws G) (removal : RemovalLaws G) (h : a.Shows G p₀ s)
    (group key : Text) :
    (a.apply (.removeKey group key)).Shows G p₀
      { s with
        parser := { s.parser with k := (G.removeKey s.parser.k (cStr group) (cStr key)).1 } } := by
  refine ⟨h.memory.update group key ?_ ?_, h.file, h.unsaved⟩
  · show (IniParser.read G _ group key).hasKey = false
    rw [IniParser.read_eq]
    exact hasKey_removeKey store _ _ _
  · intro group' key' hpair
    rw [IniParser.read_eq, IniParser.read_eq]
    exact removal.removeKey_others _ _ _ _ _ hpair

/-- `sync()` saves, or it changes nothing. -/
theorem Shows.sync (store : StoreLaws G) (h : a.Shows G p₀ s) (saved : Option GError) :
    ∃ s', IniFile.step G s (.sync saved) = some s' ∧ (a.apply (.sync saved)).Shows G p₀ s' := by
  cases hun : a.unsaved && saved.isNone with
  | false =>
    -- nothing to do, or the save fails
    have hsame : IniFile.step G s (.sync saved) = some s := by
      cases saved with
      | none =>
        have hd : s.parser.dirty = false := by simpa [h.unsaved] using hun
        simp [IniFile.step, IniParser.sync, hd]
      | some e => cases hd : s.parser.dirty <;> simp [IniFile.step, IniParser.sync, hd]
    have ha : a.apply (.sync saved) = a := if_neg (by simp [hun])
    rw [ha]
    exact ⟨s, hsame, h⟩
  | true =>
    obtain ⟨hd, hsaved⟩ := Bool.and_eq_true_iff.mp hun
    obtain rfl := Option.isNone_iff_eq_none.mp hsaved
    have hstep : IniFile.step G s (.sync none)
        = some ⟨{ s.parser with dirty := false }, G.saveToFile s.parser.k⟩ := by
      simp [IniFile.step, IniParser.sync, h.unsaved, hd]
    have ha : a.apply (.sync none) = { a with file := a.memory, unsaved := false } := if_pos hun
    obtain ⟨k, hk, hcontents⟩ := store.load_save s.parser.k
    rw [ha]
    refine ⟨_, hstep, h.memory, ⟨⟨k, s.parser.filename, false⟩, ?_, ?_⟩, rfl⟩
    · simp [IniParser.load, hk]
    · exact h.memory.of_contents hcontents

/-- **One call.** What the store does, the parser does. The simulation has no stutters:
each call of the one is one of the other. -/
theorem shows_step (laws : KeyFileLaws G) (locales : LocaleLaws G languages)
    (store : StoreLaws G) (removal : RemovalLaws G) {op : StoreOp} (hop : op.Accepted G)
    (h : a.Shows G p₀ s) :
    ∃ s', IniFile.step G s op.writeOp = some s' ∧ (a.apply op).Shows G p₀ s' := by
  cases op with
  | set group key v =>
    obtain ⟨hnames, hv, hfits⟩ := hop
    rw [step_writeOp_set]
    exact h.set laws group key hnames hv hfits
  | setLocale group key locale v =>
    obtain ⟨hnames, hv, hfits⟩ := hop
    have hset := h.set laws group (localeKey (cStr key) (cStr locale))
      (by rwa [cStr_localeKey]) hv hfits
    rw [step_writeOp_setLocale, setLocaleMethod_eq locales]
    simpa only [apply, cStr_localeKey] using hset
  | removeGroup group => exact ⟨_, wrote_removed_eq s _ _ _, h.removeGroup removal group⟩
  | removeKey group key => exact ⟨_, wrote_removed_eq s _ _ _, h.removeKey store removal group key⟩
  | sync saved => exact h.sync store saved

/-- A file that has just been loaded. -/
theorem shows_fresh {filename : Text} {file : D} {p : IniParser K}
    (hload : IniParser.load G filename file = .ok p) :
    fresh.Shows G p ⟨p, file⟩ := by
  have hp : p.filename = filename ∧ p.dirty = false := by
    unfold IniParser.load at hload
    cases hk : G.loadFromFile file with
    | error e =>
      rw [hk] at hload
      cases hload
    | ok k =>
      rw [hk] at hload
      obtain rfl := CallResult.ok.inj hload
      exact ⟨rfl, rfl⟩
  refine ⟨fun _ _ => rfl, ⟨p, ?_, fun _ _ => rfl⟩, hp.2⟩
  rw [hp.1]
  exact hload

/-- **A run.** What the store does, the parser does. -/
theorem shows_run (laws : KeyFileLaws G) (locales : LocaleLaws G languages)
    (store : StoreLaws G) (removal : RemovalLaws G) {ops : List StoreOp}
    (hops : ∀ op ∈ ops, op.Accepted G) (h : a.Shows G p₀ s) :
    ∃ s', run (IniFile.step G) s (ops.map StoreOp.writeOp) = some s' ∧
      (ops.foldl Store.apply a).Shows G p₀ s' := by
  refine run_simulates_map (fun a a' s op hop h hstep => ?_) hops h (run_total Store.apply a ops)
  obtain rfl := Option.some.inj hstep
  exact shows_step laws locales store removal hop h

/-- **A parser is a store.** From a file that has just been loaded, any run of accepted
set methods, removals and `sync` calls, whether their saves succeed or fail, goes through.
Afterwards every pair reads as what was last set for it, does not exist if it was
removed, and reads as in the loaded file if neither; and a parser that loads the file
reads this of the moment of the last `sync` that has found something to save and has not
failed. -/
theorem refined_by (laws : KeyFileLaws G) (locales : LocaleLaws G languages)
    (store : StoreLaws G) (removal : RemovalLaws G) {filename : Text} {file : D}
    {p : IniParser K} (hload : IniParser.load G filename file = .ok p) {ops : List StoreOp}
    (hops : ∀ op ∈ ops, op.Accepted G) :
    ∃ s, run (IniFile.step G) ⟨p, file⟩ (ops.map StoreOp.writeOp) = some s ∧
      (ops.foldl Store.apply fresh).Shows G p s :=
  shows_run laws locales store removal hops (shows_fresh hload)

end Store

/-! ## On a list -/

namespace ListKeyFile

theorem lookup_filter_ne_of_ne {β : Type} {key key' : Text} (h : key' ≠ key)
    (l : List (Text × β)) : (l.filter fun e => e.1 ≠ key).lookup key' = l.lookup key' := by
  induction l with
  | nil => rfl
  | cons e l ih =>
    obtain ⟨k, w⟩ := e
    by_cases hk : k = key
    · have hne : key' ≠ k := fun heq => h (heq.trans hk)
      rw [List.filter_cons_of_neg (by simpa using hk), ih, lookup_cons_eq_ite, if_neg hne]
    · rw [List.filter_cons_of_pos (by simpa using hk), lookup_cons_eq_ite, ih, lookup_cons_eq_ite]

/-- Groups that are found alike have the same values. -/
theorem find_congr {kf kf' : ListKeyFile} {group : Text}
    (h : kf'.lookup group = kf.lookup group) (key : Text) :
    kf'.find group key = kf.find group key := by
  rw [find, find, h]

theorem find_removeGroup (kf : ListKeyFile) (group key : Text) :
    (kf.removeGroup group).1.find group key = none := by
  unfold removeGroup
  split
  · rw [find, lookup_filter_ne]
    rfl
  case isFalse h =>
    have hnone : kf.lookup group = none :=
      Option.not_isSome_iff_eq_none.mp h
    rw [find, hnone]
    rfl

theorem find_removeGroup_of_ne (kf : ListKeyFile) {group group' : Text} (h : group' ≠ group)
    (key : Text) : (kf.removeGroup group).1.find group' key = kf.find group' key := by
  unfold removeGroup
  split
  · exact find_congr (lookup_filter_ne_of_ne h kf) key
  · rfl

theorem find_removeKey_of_ne (kf : ListKeyFile) {group key group' key' : Text}
    (h : (group', key') ≠ (group, key)) :
    (kf.removeKey group key).1.find group' key' = kf.find group' key' := by
  unfold removeKey
  split
  · rfl
  · rw [find, find, lookup_assocSet]
    by_cases hgroup : group' = group
    · have hkey : key' ≠ key := fun heq => h (by rw [hgroup, heq])
      rw [if_pos hgroup, Option.bind_some, lookup_filter_ne_of_ne hkey, hgroup]
      cases kf.lookup group <;> rfl
    · rw [if_neg hgroup]

end ListKeyFile

theorem listKeyFile_removalLaws : RemovalLaws listKeyFile where
  removeGroup kf group key := by
    rw [ListKeyFile.reading_hasKey]
    exact congrArg Option.isSome (kf.find_removeGroup group key)
  removeGroup_others kf _ _ key h :=
    ListKeyFile.reading_congr (kf.find_removeGroup_of_ne h key)
  removeKey_others kf _ _ _ _ h := ListKeyFile.reading_congr (kf.find_removeKey_of_ne h)

namespace Store

/-- Some changes and a save that fails, a save that succeeds, and a removal that is not
saved. -/
def someChanges : List StoreOp :=
  [.set "first" "count" (.int 2), .removeKey "first" "name",
    .setLocale "second" "name" "de" (.string "zwei"), .sync (some ⟨"No space left", 28⟩),
    .sync none, .removeGroup "second"]

theorem refined_by_someChanges :
    ∃ s, run (IniFile.step listKeyFile) ⟨IniFile.twoGroupsParser, IniFile.twoGroups⟩
        (someChanges.map StoreOp.writeOp) = some s ∧
      (someChanges.foldl Store.apply fresh).Shows listKeyFile IniFile.twoGroupsParser s := by
  have hload : IniParser.load listKeyFile "two.ini" IniFile.twoGroups
      = .ok IniFile.twoGroupsParser := rfl
  refine refined_by listKeyFile_laws listKeyFile_localeLaws listKeyFile_storeLaws
    listKeyFile_removalLaws hload ?_
  refine List.forall_mem_cons.mpr ⟨⟨by decide, trivial, trivial⟩, ?_⟩
  refine List.forall_mem_cons.mpr ⟨trivial, ?_⟩
  refine List.forall_mem_cons.mpr ⟨⟨by decide, show NulFree _ by decide, trivial⟩, ?_⟩
  simp [StoreOp.Accepted]

end Store

end LomiriApi
