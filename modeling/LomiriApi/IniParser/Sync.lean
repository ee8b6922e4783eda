import LomiriApi.IniParser.Basic
import LomiriApi.IniParser.ListKeyFile
import LomiriApi.Lib.Run

/-!
# Unsaved changes

An `IniParser` keeps two copies of its data, the key file in memory and the file on
disk, and a flag that says whether they may differ. `IniFile.step` runs the write
methods and `sync`, whose save may fail.

The set methods set the flag. `remove_group` and `remove_key` do not, so a removal
that no other change accompanies is never written: a run forgets nothing exactly
when it has no such removal (`IniFile.neverForgets_iff`).
-/

namespace LomiriApi

open Lib

/-- A parser and the file that it was loaded from. Nobody else writes the file here, so
that what is lost is lost by the parser. -/
structure IniFile (K D : Type) where
  parser : IniParser K
  file : D

/-- The write methods and `sync`. `saved` is the error of the save, if it fails. An
operation carries it, so a run can have its saves fail in any way. -/
inductive WriteOp (F : Type) where
  | setString (group key value : Text)
  | setLocaleString (group key value locale : Text)
  | setBoolean (group key : Text) (value : Bool)
  | setInt (group key : Text) (value : Int32)
  | setDouble (group key : Text) (value : F)
  | setStringArray (group key : Text) (value : List Text)
  | setLocaleStringArray (group key : Text) (value : List Text) (locale : Text)
  | setBooleanArray (group key : Text) (value : List Bool)
  | setIntArray (group key : Text) (value : List Int32)
  | setDoubleArray (group key : Text) (value : List F)
  | removeGroup (group : Text)
  | removeKey (group key : Text)
  | sync (saved : Option GError)

namespace IniFile

variable {K D F : Type} (G : GKeyFile K D F)

/-- The state after a write method, unless the program is lost. An exception is no end: the
caller may catch it and go on. -/
def wrote {α : Type} (s : IniFile K D) (r : IniParser K × CallResult α) : Option (IniFile K D) :=
  match r.2 with
  | .crash => none
  | _ => some { s with parser := r.1 }

def step (s : IniFile K D) : WriteOp F → Option (IniFile K D)
  | .setString group key value => s.wrote (s.parser.setString G group key value)
  | .setLocaleString group key value locale =>
    s.wrote (s.parser.setLocaleString G group key value locale)
  | .setBoolean group key value => s.wrote (s.parser.setBoolean G group key value)
  | .setInt group key value => s.wrote (s.parser.setInt G group key value)
  | .setDouble group key value => s.wrote (s.parser.setDouble G group key value)
  | .setStringArray group key value => s.wrote (s.parser.setStringArray G group key value)
  | .setLocaleStringArray group key value locale =>
    s.wrote (s.parser.setLocaleStringArray G group key value locale)
  | .setBooleanArray group key value => s.wrote (s.parser.setBooleanArray G group key value)
  | .setIntArray group key value => s.wrote (s.parser.setIntArray G group key value)
  | .setDoubleArray group key value => s.wrote (s.parser.setDoubleArray G group key value)
  | .removeGroup group => s.wrote (s.parser.removeGroup G group)
  | .removeKey group key => s.wrote (s.parser.removeKey G group key)
  | .sync saved =>
    let r := s.parser.sync G s.file saved
    some ⟨r.1, r.2.1⟩

/-- The file, when parsed, has the groups, keys and values that are in memory. The two need
not be equal as texts. -/
def OnDisk (s : IniFile K D) : Prop :=
  ∃ k, G.loadFromFile s.file = .ok k ∧ G.contents k = G.contents s.parser.k

/-- What not to forget an unsaved change means for a run. -/
structure NeverForgets (s : IniFile K D) (ops : List (WriteOp F)) : Prop where
  clean : Always (step G) (fun t => t.parser.dirty = false → OnDisk G t) s ops
  /-- after every `sync()` that returns normally everything is on disk -/
  sync_ok : ∀ pre saved, pre ++ [.sync saved] <+: ops → ∀ t, run (step G) s pre = some t →
    (t.parser.sync G t.file saved).2.2 = .ok () →
      ∀ t', step G t (.sync saved) = some t' → OnDisk G t'
  /-- after one that throws, a successful `sync()` still writes everything -/
  sync_throws : ∀ pre saved, pre ++ [.sync saved] <+: ops → ∀ t, run (step G) s pre = some t →
    ∀ e, (t.parser.sync G t.file saved).2.2 = .throws e →
      ∀ t', step G t (.sync saved) = some t' → t' = t ∧ t'.parser.dirty = true ∧
        ∀ t'', step G t' (.sync none) = some t'' → OnDisk G t''

/-- The step removes a group or a key that exists while nothing else waits to be written.
Then the flag stays clear, and `sync` has nothing to do as far as it knows. -/
def RemovesUnnoticed (s : IniFile K D) : WriteOp F → Prop
  | .removeGroup group => s.parser.dirty = false ∧ G.hasGroup s.parser.k (cStr group) = true
  | .removeKey group key =>
    s.parser.dirty = false ∧ (G.reading s.parser.k (cStr group) (cStr key)).hasKey = true
  | _ => False

/-! ## What one step does -/

variable {G}

theorem wrote_setValue {α : Type} {s t : IniFile K D} {set : K → α → K} {arg : Option α}
    (h : s.wrote (s.parser.setValue set arg) = some t) :
    t.file = s.file ∧ t.parser.dirty = true := by
  cases arg with
  | none => cases h
  | some a =>
    obtain rfl := Option.some.inj h
    exact ⟨rfl, rfl⟩

theorem wrote_removed {s t : IniFile K D} {pre group : Text} {r : K × Bool × Option GError}
    (h : s.wrote (s.parser.removed pre group r) = some t) :
    t = { s with parser := { s.parser with k := r.1 } } := by
  obtain ⟨k, rval, e⟩ := r
  cases e with
  | none => exact (Option.some.inj h).symm
  | some e => exact (Option.some.inj h).symm

/-- A removal has no effect, or it changes the contents in memory. -/
theorem removeGroup_cases (laws : StoreLaws G) {s t : IniFile K D} {group : Text}
    (h : step G s (.removeGroup group) = some t) :
    t = s ∧ G.hasGroup s.parser.k (cStr group) = false ∨
      t.file = s.file ∧ t.parser.dirty = s.parser.dirty ∧
        G.hasGroup s.parser.k (cStr group) = true ∧
          G.contents t.parser.k ≠ G.contents s.parser.k := by
  have ht := wrote_removed h
  cases hgroup : G.hasGroup s.parser.k (cStr group) with
  | false =>
    obtain ⟨rval, e, hr⟩ := laws.removeGroup_error _ _ hgroup
    rw [hr] at ht
    exact .inl ⟨ht, rfl⟩
  | true =>
    obtain ⟨k, rval, hr, hne⟩ := laws.removeGroup _ _ hgroup
    rw [hr] at ht
    rw [ht]
    exact .inr ⟨rfl, rfl, rfl, fun heq => hne (congrArg Contents.groups heq)⟩

theorem removeKey_cases (laws : StoreLaws G) {s t : IniFile K D} {group key : Text}
    (h : step G s (.removeKey group key) = some t) :
    t = s ∧ (G.reading s.parser.k (cStr group) (cStr key)).hasKey = false ∨
      t.file = s.file ∧ t.parser.dirty = s.parser.dirty ∧
        (G.reading s.parser.k (cStr group) (cStr key)).hasKey = true ∧
          G.contents t.parser.k ≠ G.contents s.parser.k := by
  have ht := wrote_removed h
  cases hkey : (G.reading s.parser.k (cStr group) (cStr key)).hasKey with
  | false =>
    obtain ⟨rval, e, hr⟩ := laws.removeKey_error _ _ _ hkey
    rw [hr] at ht
    exact .inl ⟨ht, rfl⟩
  | true =>
    obtain ⟨k, rval, hr, hgone⟩ := laws.removeKey _ _ _ hkey
    rw [hr] at ht
    rw [ht]
    refine .inr ⟨rfl, rfl, rfl, fun heq => ?_⟩
    have hread := congrFun (congrFun (congrArg Contents.value heq) (cStr group)) (cStr key)
    have hsame : (G.reading k (cStr group) (cStr key)).hasKey
        = (G.reading s.parser.k (cStr group) (cStr key)).hasKey := congrArg Reading.hasKey hread
    rw [hgone, hkey] at hsame
    cases hsame

/-- `sync()` has nothing to do or fails, or it saves. -/
theorem sync_cases {s t : IniFile K D} {saved : Option GError}
    (h : step G s (.sync saved) = some t) :
    (t = s ∧ ((s.parser.sync G s.file saved).2.2 = .ok () → s.parser.dirty = false) ∧
      ∀ e, (s.parser.sync G s.file saved).2.2 = .throws e → s.parser.dirty = true) ∨
    ((s.parser.sync G s.file saved).2.2 = .ok () ∧ t.file = G.saveToFile s.parser.k ∧
      t.parser.k = s.parser.k ∧ t.parser.dirty = false) := by
  simp only [step, Option.some.injEq] at h
  subst h
  cases hd : s.parser.dirty with
  | false => exact .inl (by simp [IniParser.sync, hd])
  | true =>
    cases saved with
    | none => exact .inr (by simp [IniParser.sync, hd])
    | some e => exact .inl (by simp [IniParser.sync, hd])

/-- A removal is noticed, unless what it removes has existed and the flag is not set. The
two removal methods share this. -/
theorem removal_cases {s t : IniFile K D} {op : WriteOp F} {existed : Bool}
    (hop : RemovesUnnoticed G s op ↔ s.parser.dirty = false ∧ existed = true)
    (h : t = s ∧ existed = false ∨ t.file = s.file ∧ t.parser.dirty = s.parser.dirty ∧
      existed = true ∧ G.contents t.parser.k ≠ G.contents s.parser.k) :
    (¬ RemovesUnnoticed G s op ∧ t.file = s.file ∧ t.parser.dirty = true) ∨
    (¬ RemovesUnnoticed G s op ∧ t = s) ∨
    (RemovesUnnoticed G s op ∧ t.file = s.file ∧ t.parser.dirty = false ∧
      G.contents t.parser.k ≠ G.contents s.parser.k) := by
  rcases h with ⟨rfl, hnone⟩ | ⟨hfile, hdirty, hexisted, hne⟩
  · refine .inr (.inl ⟨fun hr => ?_, rfl⟩)
    cases hnone.symm.trans (hop.mp hr).2
  · cases hd : s.parser.dirty with
    | false => exact .inr (.inr ⟨hop.mpr ⟨hd, hexisted⟩, hfile, hdirty.trans hd, hne⟩)
    | true =>
      refine .inl ⟨fun hr => ?_, hfile, hdirty.trans hd⟩
      cases hd.symm.trans (hop.mp hr).1

/-- The ways in which a step goes. All that is proved of runs comes from these four: the
flag is set, nothing is done, everything is saved, or a removal goes unnoticed. -/
theorem step_cases (laws : StoreLaws G) {s t : IniFile K D} {op : WriteOp F}
    (h : step G s op = some t) :
    (¬ RemovesUnnoticed G s op ∧ t.file = s.file ∧ t.parser.dirty = true) ∨
    (¬ RemovesUnnoticed G s op ∧ t = s) ∨
    (¬ RemovesUnnoticed G s op ∧ t.file = G.saveToFile s.parser.k ∧ t.parser.k = s.parser.k) ∨
    (RemovesUnnoticed G s op ∧ t.file = s.file ∧ t.parser.dirty = false ∧
      G.contents t.parser.k ≠ G.contents s.parser.k) := by
  cases op with
  | setString | setLocaleString | setBoolean | setInt | setDouble | setStringArray
  | setLocaleStringArray | setBooleanArray | setIntArray | setDoubleArray =>
    simp only [step, IniParser.setString, IniParser.setLocaleString, IniParser.setBoolean,
      IniParser.setInt, IniParser.setDouble, IniParser.setStringArray,
      IniParser.setLocaleStringArray, IniParser.setBooleanArray, IniParser.setIntArray,
      IniParser.setDoubleArray] at h
    exact .inl ⟨id, wrote_setValue h⟩
  | removeGroup group =>
    have hop : RemovesUnnoticed G s (.removeGroup group : WriteOp F) ↔ _ := Iff.rfl
    rcases removal_cases hop (removeGroup_cases laws h) with hflag | hsame | hunnoticed
    · exact .inl hflag
    · exact .inr (.inl hsame)
    · exact .inr (.inr (.inr hunnoticed))
  | removeKey group key =>
    have hop : RemovesUnnoticed G s (.removeKey group key : WriteOp F) ↔ _ := Iff.rfl
    rcases removal_cases hop (removeKey_cases laws h) with hflag | hsame | hunnoticed
    · exact .inl hflag
    · exact .inr (.inl hsame)
    · exact .inr (.inr (.inr hunnoticed))
  | sync saved =>
    rcases sync_cases h with ⟨rfl, -⟩ | ⟨-, hfile, hk, -⟩
    · exact .inr (.inl ⟨id, rfl⟩)
    · exact .inr (.inr (.inl ⟨id, hfile, hk⟩))

/-- What a `sync()` that returns normally leaves behind. -/
theorem sync_ok_dirty {s t : IniFile K D} {saved : Option GError}
    (hok : (s.parser.sync G s.file saved).2.2 = .ok ()) (h : step G s (.sync saved) = some t) :
    t.parser.dirty = false := by
  rcases sync_cases h with ⟨rfl, hclean, -⟩ | ⟨-, -, -, hd⟩
  · exact hclean hok
  · exact hd

/-- A `sync()` that throws changes nothing. The flag is still set, so a later one can try
again. -/
theorem sync_throws_eq {s t : IniFile K D} {saved : Option GError} {e : Exception Empty}
    (he : (s.parser.sync G s.file saved).2.2 = .throws e) (h : step G s (.sync saved) = some t) :
    t = s ∧ s.parser.dirty = true := by
  rcases sync_cases h with ⟨rfl, -, hdirty⟩ | ⟨hok, -⟩
  · exact ⟨rfl, hdirty e he⟩
  · cases he.symm.trans hok

/-- A `sync()` whose save succeeds writes everything if the flag is set. -/
theorem onDisk_sync (laws : StoreLaws G) {s t : IniFile K D} (hd : s.parser.dirty = true)
    (h : step G s (.sync none) = some t) : OnDisk G t := by
  rcases sync_cases h with ⟨-, hclean, -⟩ | ⟨-, hfile, hk, -⟩
  · have hok : (s.parser.sync G s.file none).2.2 = .ok () := by simp [IniParser.sync, hd]
    have hd' : s.parser.dirty = false := hclean hok
    rw [hd] at hd'
    cases hd'
  · rw [OnDisk, hfile, hk]
    exact laws.load_save s.parser.k

/-! ## What a run does -/

/-- The flag is right as long as no removal goes unnoticed. This is the invariant of the
runs that forget nothing. -/
theorem step_clean (laws : StoreLaws G) {s t : IniFile K D} {op : WriteOp F}
    (hs : s.parser.dirty = false → OnDisk G s) (h : step G s op = some t)
    (hop : ¬ RemovesUnnoticed G s op) : t.parser.dirty = false → OnDisk G t := by
  intro hd
  rcases step_cases laws h with ⟨-, -, hdirty⟩ | ⟨-, rfl⟩ | ⟨-, hfile, hk⟩ | ⟨hr, -⟩
  · rw [hd] at hdirty
    cases hdirty
  · exact hs hd
  · rw [OnDisk, hfile, hk]
    exact laws.load_save s.parser.k
  · exact absurd hr hop

/-- A removal that goes unnoticed makes memory and file differ, while the flag says that
they do not. Hence the condition is exact. -/
theorem not_removesUnnoticed (laws : StoreLaws G) {s t : IniFile K D} {op : WriteOp F}
    (hs : s.parser.dirty = false → OnDisk G s) (h : step G s op = some t)
    (ht : t.parser.dirty = false → OnDisk G t) : ¬ RemovesUnnoticed G s op := by
  rcases step_cases laws h with ⟨hr, -⟩ | ⟨hr, -⟩ | ⟨hr, -⟩ | ⟨hr, hfile, hdirty, hne⟩
  · exact hr
  · exact hr
  · exact hr
  · intro _
    have hd : s.parser.dirty = false := by
      cases op with
      | removeGroup group => exact hr.1
      | removeKey group key => exact hr.1
      | _ => exact hr.elim
    obtain ⟨k, hk, hcontents⟩ := hs hd
    obtain ⟨k', hk', hcontents'⟩ := ht hdirty
    -- the file is still the old one
    have hsame : k' = k := by
      rw [hfile, hk] at hk'
      exact (Except.ok.inj hk').symm
    rw [hsame] at hcontents'
    exact hne (hcontents'.symm.trans hcontents)

theorem clean_iff (laws : StoreLaws G) {s : IniFile K D} (hs : OnDisk G s)
    (ops : List (WriteOp F)) :
    Always (step G) (fun t => t.parser.dirty = false → OnDisk G t) s ops ↔
      Meets (step G) (fun t op => ¬ RemovesUnnoticed G t op) s ops :=
  always_iff_meets (I := fun t => t.parser.dirty = false → OnDisk G t)
    (fun _ _ _ hs h hop => step_clean laws hs h hop) (fun _ hs => hs)
    (fun _ _ _ hs h ht => not_removesUnnoticed laws hs h ht) fun _ => hs

/-- The flag is all that `sync` needs. -/
theorem neverForgets_of_clean (laws : StoreLaws G) {s : IniFile K D} {ops : List (WriteOp F)}
    (h : Always (step G) (fun t => t.parser.dirty = false → OnDisk G t) s ops) :
    NeverForgets G s ops where
  clean := h
  sync_ok pre saved hpre t ht hok t' ht' := by
    refine h _ hpre t' ?_ (sync_ok_dirty hok ht')
    rw [run_append, ht]
    exact (run_cons_some ht' []).trans rfl
  sync_throws pre saved _ t _ e he t' ht' := by
    obtain ⟨rfl, hd⟩ := sync_throws_eq he ht'
    exact ⟨rfl, hd, fun _ ht'' => onDisk_sync laws hd ht''⟩

/-- **Unsaved changes.** From a file that has just been loaded, a run of write methods
and `sync` calls forgets nothing exactly when it never removes an existing group or
key while nothing else waits to be written. -/
theorem neverForgets_iff (laws : StoreLaws G) {filename : Text} {file : D} {p : IniParser K}
    (hload : IniParser.load G filename file = .ok p) (ops : List (WriteOp F)) :
    NeverForgets G ⟨p, file⟩ ops ↔
      Meets (step G) (fun t op => ¬ RemovesUnnoticed G t op) ⟨p, file⟩ ops := by
  have hdisk : OnDisk G (⟨p, file⟩ : IniFile K D) := by
    unfold IniParser.load at hload
    cases hk : G.loadFromFile file with
    | error e =>
      rw [hk] at hload
      cases hload
    | ok k =>
      rw [hk] at hload
      obtain rfl := CallResult.ok.inj hload
      exact ⟨k, hk, rfl⟩
  rw [← clean_iff laws hdisk]
  exact ⟨fun h => h.clean, neverForgets_of_clean laws⟩

/-- A file with two groups. -/
def twoGroups : ListKeyFile :=
  [("first", [("name", .string "a"), ("count", .int 1)]), ("second", [("flag", .boolean true)])]

/-- The parser that has loaded it. -/
def twoGroupsParser : IniParser ListKeyFile := ⟨twoGroups, "two.ini", false⟩

/-- A removal together with another change. -/
def setAndRemove : List (WriteOp Unit) :=
  [.setInt "first" "count" 2, .removeKey "first" "name", .sync none]

theorem neverForgets_iff_setAndRemove :
    NeverForgets listKeyFile ⟨twoGroupsParser, twoGroups⟩ setAndRemove := by
  refine (neverForgets_iff (p := twoGroupsParser) listKeyFile_storeLaws rfl setAndRemove).mpr ?_
  refine meets_cons.mpr fun s hs => ⟨id, meets_cons.mpr fun t ht => ⟨fun hr => ?_, ?_⟩⟩
  · -- the flag is set already
    obtain rfl := Option.some.inj hs
    exact absurd hr.1 (by decide)
  · exact meets_cons.mpr fun _ _ => ⟨id, meets_nil _⟩

/-- The only change is a removal. -/
def removeOnly : List (WriteOp Unit) := [.removeGroup "first", .sync none]

theorem neverForgets_fails_removeOnly :
    StoreLaws listKeyFile ∧ ¬ ∀ ops, NeverForgets listKeyFile ⟨twoGroupsParser, twoGroups⟩ ops := by
  refine ⟨listKeyFile_storeLaws, fun hall => ?_⟩
  obtain ⟨k, hk, hcontents⟩ := (hall removeOnly).sync_ok [.removeGroup "first"] none
    (List.prefix_refl _) _ rfl rfl _ rfl
  obtain rfl := Except.ok.inj hk
  have hgroups := congrArg Contents.groups hcontents
  exact absurd hgroups (by decide)

end IniFile

end LomiriApi
