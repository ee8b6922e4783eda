import LomiriApi.IniParser.Sync

/-!
# Errors of the read methods

A read method is to return a value or to throw a `LogicException`. Most of them leave
it to GLib to report an error whenever there is no value to return (`ReadLaws`).
`get_start_group` has no error to look at: it makes a string from the pointer that
GLib returns, which is NULL if the key file has no groups.

A run of write methods keeps all read methods regular exactly if there is a group to
start with and no `remove_group` takes the last one (`IniFile.always_regular_iff`).
-/

namespace LomiriApi

open Lib ListKeyFile

/-- The call returns, or it throws a `LogicException`. Nothing else escapes, and no
null pointer is read. -/
def CallResult.Regular {α : Type} : CallResult α → Prop
  | ok _ => True
  | throws e => ∃ reason, e = logicException none reason
  | crash => False

/-- The count is that of the list, which may be NULL if it is empty. -/
def CArray.Sound {τ : Type} (a : CArray τ) : Prop := a.count = (a.data.getD []).length

/-! ## What GLib is assumed to do -/

section Laws

variable {K D F : Type} (G : GKeyFile K D F)

/-- The names of the groups. -/
def GKeyFile.groups (k : K) : List Text := (G.getGroups k).data.getD []

/-- What the getters return if they set no error. -/
structure ReadLaws : Prop where
  string : ∀ k group key, (G.string.get k group key).2 = none → (G.string.get k group key).1 ≠ none
  localeString : ∀ k group key locale, (G.getLocaleString k group key locale).2 = none →
    (G.getLocaleString k group key locale).1 ≠ none
  stringList : ∀ k group key,
    (G.stringList.get k group key).2 = none → (G.stringList.get k group key).1.Sound
  localeStringList : ∀ k group key locale, (G.getLocaleStringList k group key locale).2 = none →
    (G.getLocaleStringList k group key locale).1.Sound
  booleanList : ∀ k group key,
    (G.booleanList.get k group key).2 = none → (G.booleanList.get k group key).1.Sound
  integerList : ∀ k group key,
    (G.integerList.get k group key).2 = none → (G.integerList.get k group key).1.Sound
  doubleList : ∀ k group key,
    (G.doubleList.get k group key).2 = none → (G.doubleList.get k group key).1.Sound
  keys : ∀ k group, (G.getKeys k group).2 = none → (G.getKeys k group).1.Sound
  groups : ∀ k, (G.getGroups k).Sound
  hasGroup : ∀ k group, G.hasGroup k group = true ↔ group ∈ G.groups k
  /-- NULL if there is no group -/
  startGroup : ∀ k, G.getStartGroup k = (G.groups k).head?

/-- No group is lost. -/
def GKeyFile.KeepsGroups (f : K → K) : Prop :=
  ∀ k group, G.hasGroup k group = true → G.hasGroup (f k) group = true

/-- What the functions that change a key file do to its groups. -/
structure GroupLaws : Prop where
  string : ∀ group key a, G.KeepsGroups fun k => G.string.set k group key a
  boolean : ∀ group key a, G.KeepsGroups fun k => G.boolean.set k group key a
  integer : ∀ group key a, G.KeepsGroups fun k => G.integer.set k group key a
  double : ∀ group key a, G.KeepsGroups fun k => G.double.set k group key a
  stringList : ∀ group key a, G.KeepsGroups fun k => G.stringList.set k group key a
  booleanList : ∀ group key a, G.KeepsGroups fun k => G.booleanList.set k group key a
  integerList : ∀ group key a, G.KeepsGroups fun k => G.integerList.set k group key a
  doubleList : ∀ group key a, G.KeepsGroups fun k => G.doubleList.set k group key a
  localeString : ∀ group key locale a,
    G.KeepsGroups fun k => G.setLocaleString k group key locale a
  localeStringList : ∀ group key locale a,
    G.KeepsGroups fun k => G.setLocaleStringList k group key locale a
  removeKey : ∀ group key, G.KeepsGroups fun k => (G.removeKey k group key).1
  /-- only the group that is named is removed -/
  removeGroup : ∀ k group group', G.hasGroup (G.removeGroup k group).1 group' = true ↔
    G.hasGroup k group' = true ∧ group' ≠ group

end Laws

/-- The read methods. -/
inductive ReadOp where
  | hasGroup (group : Text)
  | hasKey (group key : Text)
  | getString (group key : Text)
  | getLocaleString (group key locale : Text)
  | getBoolean (group key : Text)
  | getInt (group key : Text)
  | getDouble (group key : Text)
  | getStringArray (group key : Text)
  | getLocaleStringArray (group key locale : Text)
  | getBooleanArray (group key : Text)
  | getIntArray (group key : Text)
  | getDoubleArray (group key : Text)
  | getStartGroup
  | getGroups
  | getKeys (group : Text)
deriving DecidableEq, Repr

namespace ReadOp

variable {K D F : Type} (G : GKeyFile K D F)

/-- The call returns or throws a `LogicException`; and `get_start_group` returns the
first of the groups. -/
def Regular (p : IniParser K) : ReadOp → Prop
  | hasGroup group => (CallResult.ok (p.hasGroup G group)).Regular
  | hasKey group key => (p.hasKey G group key).Regular
  | getString group key => (p.getString G group key).Regular
  | getLocaleString group key locale => (p.getLocaleString G group key locale).Regular
  | getBoolean group key => (p.getBoolean G group key).Regular
  | getInt group key => (p.getInt G group key).Regular
  | getDouble group key => (p.getDouble G group key).Regular
  | getStringArray group key => (p.getStringArray G group key).Regular
  | getLocaleStringArray group key locale => (p.getLocaleStringArray G group key locale).Regular
  | getBooleanArray group key => (p.getBooleanArray G group key).Regular
  | getIntArray group key => (p.getIntArray G group key).Regular
  | getDoubleArray group key => (p.getDoubleArray G group key).Regular
  | getStartGroup => (p.getStartGroup G).Regular ∧
      ∀ group groups, p.getGroups G = .ok (group :: groups) → p.getStartGroup G = .ok group
  | getGroups => (p.getGroups G).Regular
  | getKeys group => (p.getKeys G group).Regular

end ReadOp

namespace IniFile

variable {K D F : Type} (G : GKeyFile K D F)

/-- The key file in memory has a group. -/
def HasGroups (s : IniFile K D) : Prop := ∃ group, G.hasGroup s.parser.k group = true

/-- The step removes the only group. -/
def RemovesLastGroup (s : IniFile K D) : WriteOp F → Prop
  | .removeGroup group => ∀ group', G.hasGroup s.parser.k group' = true → group' = cStr group
  | _ => False

end IniFile

/-! ## One read method -/

/-- An array as long as it says can be copied into a vector. NULL counts as an array of
length 0. -/
theorem CArray.Sound.elements_eq {τ : Type} {a : CArray τ} (h : a.Sound) :
    a.elements = some (a.data.getD []) := by
  obtain ⟨data, count⟩ := a
  obtain rfl : count = (data.getD []).length := h
  cases data with
  | none => rfl
  | some l => exact elements_self l

namespace IniParser

variable {K D F : Type} {G : GKeyFile K D F} (p : IniParser K)

/-- A method that inspects an error is regular if there is a value whenever there is
no error. -/
theorem regular_getValue {β γ : Type} {convert : β → Option γ} {r : β × Option GError}
    (h : r.2 = none → convert r.1 ≠ none) (pre group : Text) :
    (p.getValue convert pre group r).Regular := by
  obtain ⟨b, e⟩ := r
  cases e with
  | some e => exact ⟨_, rfl⟩
  | none =>
    obtain ⟨v, hv⟩ := Option.ne_none_iff_exists'.mp (h rfl)
    have hok : p.getValue convert pre group (b, none) = .ok v :=
      getValue_eq_ok.mpr hv
    rw [hok]
    trivial

/-- The same for arrays, where there must be as many elements as the length says. -/
theorem regular_getArray {τ : Type} {r : CArray τ × Option GError} (h : r.2 = none → r.1.Sound)
    (pre group : Text) : (p.getValue CArray.elements pre group r).Regular := by
  refine p.regular_getValue (fun he => ?_) pre group
  rw [(h he).elements_eq]
  exact Option.some_ne_none _

/-- `get_groups` returns the groups of the key file, in their order. -/
theorem getGroups_eq (laws : ReadLaws G) : p.getGroups G = .ok (G.groups p.k) := by
  rw [getGroups, (laws.groups p.k).elements_eq]
  rfl

/-- With a group there is a first one, and `get_start_group` returns it. -/
theorem getStartGroup_cons (laws : ReadLaws G) {group : Text} {groups : List Text}
    (h : G.groups p.k = group :: groups) : p.getStartGroup G = .ok group := by
  rw [getStartGroup, laws.startGroup, h]
  rfl

/-- Without groups, a string is made from NULL. -/
theorem getStartGroup_nil (laws : ReadLaws G) (h : G.groups p.k = []) :
    p.getStartGroup G = .crash := by
  rw [getStartGroup, laws.startGroup, h]
  rfl

end IniParser

/-- All read methods but one are regular always, and `get_start_group` is if there is
a group. -/
theorem ReadOp.regular_iff {K D F : Type} {G : GKeyFile K D F} (laws : ReadLaws G)
    (p : IniParser K) (op : ReadOp) :
    op.Regular G p ↔ (op = .getStartGroup → ∃ group, G.hasGroup p.k group = true) := by
  cases op with
  | getStartGroup =>
    simp only [Regular, p.getGroups_eq laws, laws.hasGroup, true_imp_iff]
    cases hgroups : G.groups p.k with
    | nil =>
      rw [p.getStartGroup_nil laws hgroups]
      simp [CallResult.Regular]
    | cons group groups =>
      rw [p.getStartGroup_cons laws hgroups]
      refine iff_of_true ⟨trivial, fun group' groups' h => ?_⟩ ⟨group, List.mem_cons_self⟩
      rw [(List.cons.inj (CallResult.ok.inj h)).1]
  | hasGroup group => exact iff_of_true trivial nofun
  | hasKey group key =>
    exact iff_of_true (p.regular_getValue (fun _ => Option.some_ne_none _) _ _) nofun
  | getString group key => exact iff_of_true (p.regular_getValue (laws.string _ _ _) _ _) nofun
  | getLocaleString group key locale =>
    exact iff_of_true (p.regular_getValue (laws.localeString _ _ _ _) _ _) nofun
  | getBoolean group key =>
    exact iff_of_true (p.regular_getValue (fun _ => Option.some_ne_none _) _ _) nofun
  | getInt group key =>
    exact iff_of_true (p.regular_getValue (fun _ => Option.some_ne_none _) _ _) nofun
  | getDouble group key =>
    exact iff_of_true (p.regular_getValue (fun _ => Option.some_ne_none _) _ _) nofun
  | getStringArray group key =>
    exact iff_of_true (p.regular_getArray (laws.stringList _ _ _) _ _) nofun
  | getLocaleStringArray group key locale =>
    exact iff_of_true (p.regular_getArray (laws.localeStringList _ _ _ _) _ _) nofun
  | getBooleanArray group key =>
    exact iff_of_true (p.regular_getArray (laws.booleanList _ _ _) _ _) nofun
  | getIntArray group key =>
    exact iff_of_true (p.regular_getArray (laws.integerList _ _ _) _ _) nofun
  | getDoubleArray group key =>
    exact iff_of_true (p.regular_getArray (laws.doubleList _ _ _) _ _) nofun
  | getGroups =>
    refine iff_of_true ?_ nofun
    rw [Regular, p.getGroups_eq laws]
    trivial
  | getKeys group => exact iff_of_true (p.regular_getArray (laws.keys _ _) _ _) nofun

/-! ## Runs of write methods -/

namespace IniFile

variable {K D F : Type} {G : GKeyFile K D F}

/-- All read methods are regular exactly if there is a group. By `ReadOp.regular_iff` only
`get_start_group` depends on it. -/
theorem regular_iff_hasGroups (laws : ReadLaws G) (s : IniFile K D) :
    (∀ op : ReadOp, op.Regular G s.parser) ↔ HasGroups G s := by
  simp only [ReadOp.regular_iff laws, HasGroups, forall_eq]

/-- A set method removes no group; it adds one if need be. -/
theorem hasGroups_setValue {α : Type} {s t : IniFile K D} {set : K → α → K} {arg : Option α}
    (hset : ∀ a, G.KeepsGroups fun k => set k a) (hs : HasGroups G s)
    (h : s.wrote (s.parser.setValue set arg) = some t) : HasGroups G t := by
  cases arg with
  | none => cases h
  | some a =>
    obtain rfl := Option.some.inj h
    obtain ⟨group, hgroup⟩ := hs
    exact ⟨group, hset a s.parser.k group hgroup⟩

/-- `remove_group` is the one method that can empty a key file. -/
theorem hasGroups_removeGroup (laws : GroupLaws G) {s t : IniFile K D} {group : Text}
    (h : step G s (.removeGroup group) = some t) :
    HasGroups G t ↔ ¬ RemovesLastGroup (F := F) G s (.removeGroup group) := by
  rw [wrote_removed h]
  simp only [HasGroups, RemovesLastGroup, laws.removeGroup, not_forall, exists_prop]

/-- Only the removal of the last group leaves none. -/
theorem hasGroups_step (laws : GroupLaws G) {s t : IniFile K D} {op : WriteOp F}
    (hs : HasGroups G s) (h : step G s op = some t) :
    HasGroups G t ↔ ¬ RemovesLastGroup G s op := by
  cases op with
  | removeGroup group => exact hasGroups_removeGroup laws h
  | removeKey group key =>
    refine iff_of_true ?_ id
    obtain ⟨group', hgroup⟩ := hs
    rw [wrote_removed h]
    exact ⟨group', laws.removeKey _ _ _ _ hgroup⟩
  | sync saved =>
    refine iff_of_true ?_ id
    rcases sync_cases h with ⟨rfl, -⟩ | ⟨-, -, hk, -⟩
    · exact hs
    · rwa [HasGroups, hk]
  | setString =>
    simp only [step, IniParser.setString] at h
    exact iff_of_true (hasGroups_setValue (laws.string _ _) hs h) id
  | setLocaleString =>
    simp only [step, IniParser.setLocaleString] at h
    exact iff_of_true (hasGroups_setValue (laws.localeString _ _ _) hs h) id
  | setBoolean =>
    simp only [step, IniParser.setBoolean] at h
    exact iff_of_true (hasGroups_setValue (laws.boolean _ _) hs h) id
  | setInt =>
    simp only [step, IniParser.setInt] at h
    exact iff_of_true (hasGroups_setValue (laws.integer _ _) hs h) id
  | setDouble =>
    simp only [step, IniParser.setDouble] at h
    exact iff_of_true (hasGroups_setValue (laws.double _ _) hs h) id
  | setStringArray =>
    simp only [step, IniParser.setStringArray] at h
    exact iff_of_true (hasGroups_setValue (laws.stringList _ _) hs h) id
  | setLocaleStringArray =>
    simp only [step, IniParser.setLocaleStringArray] at h
    exact iff_of_true (hasGroups_setValue (laws.localeStringList _ _ _) hs h) id
  | setBooleanArray =>
    simp only [step, IniParser.setBooleanArray] at h
    exact iff_of_true (hasGroups_setValue (laws.booleanList _ _) hs h) id
  | setIntArray =>
    simp only [step, IniParser.setIntArray] at h
    exact iff_of_true (hasGroups_setValue (laws.integerList _ _) hs h) id
  | setDoubleArray =>
    simp only [step, IniParser.setDoubleArray] at h
    exact iff_of_true (hasGroups_setValue (laws.doubleList _ _) hs h) id

/-- **Errors of the read methods.** In every state of a run, all read methods with all
arguments return or throw a `LogicException`, exactly when there is a group to start
with and no step of the run removes the last one. -/
theorem always_regular_iff (reads : ReadLaws G) (groups : GroupLaws G) (s : IniFile K D)
    (ops : List (WriteOp F)) :
    Always (step G) (fun t => ∀ op : ReadOp, op.Regular G t.parser) s ops ↔
      HasGroups G s ∧ Meets (step G) (fun t op => ¬ RemovesLastGroup G t op) s ops := by
  simp only [regular_iff_hasGroups reads]
  have hrun : HasGroups G s → (Always (step G) (HasGroups G) s ops ↔
      Meets (step G) (fun t op => ¬ RemovesLastGroup G t op) s ops) := fun hs =>
    always_iff_meets (I := HasGroups G)
      (fun _ _ _ hs h hop => (hasGroups_step groups hs h).mpr hop) (fun _ hs => hs)
      (fun _ _ _ hs h ht => (hasGroups_step groups hs h).mp ht) hs
  constructor
  · intro h
    have hs : HasGroups G s := h [] List.nil_prefix s rfl
    exact ⟨hs, (hrun hs).mp h⟩
  · rintro ⟨hs, h⟩
    exact (hrun hs).mpr h

end IniFile

/-! ## On a list -/

namespace ListKeyFile

/-- A getter returns what it has found if it sets no error. -/
theorem getTyped_of_no_error {β : Type} {fromValue : IniValue → Option β} {default : β}
    {P : β → Prop} (hP : ∀ v b, fromValue v = some b → P b) (v : Option IniValue)
    (h : (getTyped fromValue default v).2 = none) : P (getTyped fromValue default v).1 := by
  cases v with
  | none => cases h
  | some v =>
    simp only [getTyped] at h ⊢
    cases hb : fromValue v with
    | none =>
      rw [hb] at h
      cases h
    | some b => exact hP v b hb

/-- The string functions of the list model return NULL with an error only. -/
theorem stringOf_ne_none (v : IniValue) (s : Option Text) (h : stringOf v = some s) :
    s ≠ none := by
  cases v with
  | string t =>
    obtain rfl := Option.some.inj h
    exact Option.some_ne_none t
  | _ => cases h

/-- The lists of strings are as long as they say, and so are those of booleans and integers. -/
theorem stringListOf_sound (v : IniValue) (a : CArray Text) (h : stringListOf v = some a) :
    a.Sound := by
  cases v with
  | stringArray l =>
    obtain rfl := Option.some.inj h
    rfl
  | _ => cases h

theorem booleanListOf_sound (v : IniValue) (a : CArray Bool) (h : booleanListOf v = some a) :
    a.Sound := by
  cases v with
  | booleanArray l =>
    obtain rfl := Option.some.inj h
    rfl
  | _ => cases h

theorem integerListOf_sound (v : IniValue) (a : CArray Int32) (h : integerListOf v = some a) :
    a.Sound := by
  cases v with
  | intArray l =>
    obtain rfl := Option.some.inj h
    rfl
  | _ => cases h

/-- A group of the list model is a first component of one of its pairs. -/
theorem hasGroup_iff (kf : ListKeyFile) (group : Text) :
    kf.hasGroup group = true ↔ group ∈ kf.map Prod.fst := by
  refine ⟨mem_of_hasGroup, fun h => ?_⟩
  obtain ⟨⟨group', keys⟩, he, rfl⟩ := List.mem_map.mp h
  rw [hasGroup, Option.isSome_iff_ne_none, Ne, List.lookup_eq_none_iff]
  intro hnone
  exact absurd (hnone _ he) (by simp)

/-- Setting the keys of a group leaves all groups there. -/
theorem hasGroup_assocSet {kf : ListKeyFile} {group' : Text} (h : kf.hasGroup group' = true)
    (group : Text) (keys : List (Text × IniValue)) :
    hasGroup (assocSet group keys kf) group' = true := by
  rw [hasGroup, lookup_assocSet]
  by_cases heq : group' = group
  · rw [if_pos heq]
    rfl
  · rw [if_neg heq]
    exact h

/-- Setting a value, whatever its type is, keeps the groups. -/
theorem typed_keepsGroups {α β : Type} {fns : ValueFunctions ListKeyFile α β}
    {toValue : α → Option IniValue} {fromValue : IniValue → Option β} {default : β}
    (hfns : fns = typed toValue fromValue default) (group key : Text) (a : α) :
    listKeyFile.KeepsGroups fun kf => fns.set kf group key a := by
  intro kf group' h
  show hasGroup _ group' = true
  simp only [hfns, typed]
  split
  · split
    · exact hasGroup_assocSet h group _
    · exact h
  · exact h

/-- Removing a key keeps its group, if only with no keys left. -/
theorem removeKey_keepsGroups (group key : Text) :
    listKeyFile.KeepsGroups fun kf => (kf.removeKey group key).1 := by
  intro kf group' h
  show hasGroup _ group' = true
  simp only [removeKey]
  split
  · exact h
  · exact hasGroup_assocSet h group _

/-- Removing a group removes this one and no other. -/
theorem hasGroup_removeGroup (kf : ListKeyFile) (group group' : Text) :
    hasGroup (kf.removeGroup group).1 group' = true ↔
      kf.hasGroup group' = true ∧ group' ≠ group := by
  rw [removeGroup]
  split
  · rw [hasGroup_iff, hasGroup_iff, List.mem_map, List.mem_map]
    constructor
    · rintro ⟨e, he, rfl⟩
      obtain ⟨hmem, hne⟩ := List.mem_filter.mp he
      exact ⟨⟨e, hmem, rfl⟩, by simpa using hne⟩
    · rintro ⟨⟨e, he, rfl⟩, hne⟩
      exact ⟨e, List.mem_filter.mpr ⟨he, by simpa using hne⟩, rfl⟩
  · next hnone =>
    refine ⟨fun h => ⟨h, fun heq => ?_⟩, fun h => h.1⟩
    rw [heq] at h
    exact hnone h

end ListKeyFile

/-- The list model meets the laws on reading, so there is a key file of which the theorem
speaks. -/
theorem listKeyFile_readLaws : ReadLaws listKeyFile where
  string kf group key := getTyped_of_no_error stringOf_ne_none _
  localeString kf group key locale := getTyped_of_no_error stringOf_ne_none _
  stringList kf group key := getTyped_of_no_error stringListOf_sound _
  localeStringList kf group key locale := getTyped_of_no_error stringListOf_sound _
  booleanList kf group key := getTyped_of_no_error booleanListOf_sound _
  integerList kf group key := getTyped_of_no_error integerListOf_sound _
  doubleList kf group key := getTyped_of_no_error (fun _ _ h => by cases h) _
  keys kf group h := by
    simp only [listKeyFile, getKeys] at h ⊢
    split
    · next hnone =>
      rw [hnone] at h
      cases h
    · next keys _ => exact (List.length_map Prod.fst).symm
  groups kf := (List.length_map Prod.fst).symm
  hasGroup := hasGroup_iff
  startGroup kf := List.head?_map.symm

/-- It meets the laws on groups as well. -/
theorem listKeyFile_groupLaws : GroupLaws listKeyFile where
  string := typed_keepsGroups (show string = typed _ _ _ from rfl)
  boolean := typed_keepsGroups (show boolean = typed _ _ _ from rfl)
  integer := typed_keepsGroups (show integer = typed _ _ _ from rfl)
  double := typed_keepsGroups (show double = typed _ _ _ from rfl)
  stringList := typed_keepsGroups (show stringList = typed _ _ _ from rfl)
  booleanList := typed_keepsGroups (show booleanList = typed _ _ _ from rfl)
  integerList := typed_keepsGroups (show integerList = typed _ _ _ from rfl)
  doubleList := typed_keepsGroups (show doubleList = typed _ _ _ from rfl)
  localeString group key locale :=
    typed_keepsGroups (show string = typed _ _ _ from rfl) group (localeKey key locale)
  localeStringList group key locale :=
    typed_keepsGroups (show stringList = typed _ _ _ from rfl) group (localeKey key locale)
  removeKey := removeKey_keepsGroups
  removeGroup := hasGroup_removeGroup

namespace IniFile

/-- The first of two groups is removed, and then a key is set. -/
def removeFirst : List (WriteOp Unit) := [.removeGroup "first", .setInt "second" "count" 2]

/-- Two groups, one of which is removed: there is a first group all along. -/
theorem always_regular_iff_removeFirst :
    Always (step listKeyFile) (fun t => ∀ op : ReadOp, op.Regular listKeyFile t.parser)
      ⟨twoGroupsParser, twoGroups⟩ removeFirst := by
  refine (always_regular_iff listKeyFile_readLaws listKeyFile_groupLaws _ _).mpr
    ⟨⟨"first", by decide⟩, ?_⟩
  refine meets_cons.mpr fun s _ => ⟨fun hlast => ?_, meets_cons.mpr fun _ _ => ⟨id, meets_nil _⟩⟩
  -- the second group is left
  exact absurd (hlast "second" (by decide)) (by decide)

/-- An empty file has no first group, and `get_start_group` makes a string from NULL. -/
theorem regular_fails_noGroups :
    ReadLaws listKeyFile ∧ GroupLaws listKeyFile ∧
      ¬ ∀ (filename : Text) (file : ListKeyFile) (p : IniParser ListKeyFile),
        IniParser.load listKeyFile filename file = .ok p →
          ∀ (ops : List (WriteOp Unit)) (t : IniFile ListKeyFile ListKeyFile),
            run (step listKeyFile) ⟨p, file⟩ ops = some t →
              ∀ op : ReadOp, op.Regular listKeyFile t.parser := by
  refine ⟨listKeyFile_readLaws, listKeyFile_groupLaws, fun hall => ?_⟩
  -- a file with comments only has no groups
  exact (hall "empty.ini" [] ⟨[], "empty.ini", false⟩ rfl [] _ rfl .getStartGroup).1

end IniFile

end LomiriApi
