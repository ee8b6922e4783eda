import LomiriApi.IniParser.GKeyFile

/-!
# Key files as lists

A key file as a list of groups, each a list of keys with typed values, and the
functions of GLib on it. It has no floating-point numbers and takes the file for
what is parsed from it. The laws hold of it: `listKeyFile_laws`,
`listKeyFile_storeLaws`.
-/

namespace LomiriApi

/-- Groups and their keys, in order. -/
abbrev ListKeyFile := List (Text × List (Text × IniValue))

section Assoc

variable {β : Type}

/-- Replace the value of a key, or add the key at the end, so that the order of a file is
that in which its keys were first set. -/
def assocSet (key : Text) (v : β) : List (Text × β) → List (Text × β)
  | [] => [(key, v)]
  | (key', v') :: l => if key' = key then (key, v) :: l else (key', v') :: assocSet key v l

/-- `List.lookup` compares with `==`; stated with `=`, so that the cases of a proof are
those of the keys. -/
theorem lookup_cons_eq_ite (key k : Text) (w : β) (l : List (Text × β)) :
    ((k, w) :: l).lookup key = if key = k then some w else l.lookup key := by
  rw [List.lookup_cons]
  by_cases h : key = k
  · rw [if_pos h, beq_iff_eq.mpr h]
  · rw [if_neg h, beq_eq_false_iff_ne.mpr h]

/-- After a key was set it has its new value, and every other key the value that it had:
all that is needed of `assocSet`. -/
theorem lookup_assocSet (key key' : Text) (v : β) (l : List (Text × β)) :
    (assocSet key v l).lookup key' = if key' = key then some v else l.lookup key' := by
  induction l with
  | nil => rw [assocSet, lookup_cons_eq_ite, List.lookup_nil]
  | cons e l ih =>
    obtain ⟨k, w⟩ := e
    rw [assocSet]
    by_cases hk : k = key
    · rw [if_pos hk, lookup_cons_eq_ite, lookup_cons_eq_ite, hk]
      by_cases h : key' = key
      · rw [if_pos h, if_pos h]
      · rw [if_neg h, if_neg h, if_neg h]
    · rw [if_neg hk, lookup_cons_eq_ite, lookup_cons_eq_ite, ih]
      by_cases h : key' = key
      · have hne : key' ≠ k := fun heq => hk (heq.symm.trans h)
        rw [if_neg hne, if_pos h, if_pos h]
      · rw [if_neg h, if_neg h]

/-- A key that was filtered out is not found any more. -/
theorem lookup_filter_ne (key : Text) (l : List (Text × β)) :
    (l.filter fun e => e.1 ≠ key).lookup key = none := by
  rw [List.lookup_eq_none_iff]
  intro e he
  have hne : e.1 ≠ key := by simpa using (List.mem_filter.mp he).2
  exact bne_iff_ne.mpr hne.symm

end Assoc

namespace ListKeyFile

/-- The value of a pair; `none` if there is no such group, or no such key in it. -/
def find (kf : ListKeyFile) (group key : Text) : Option IniValue :=
  (kf.lookup group).bind fun keys => keys.lookup key

/-- Set a pair. A group that there is not yet is created, as `g_key_file_set_x` does. -/
def put (kf : ListKeyFile) (group key : Text) (v : IniValue) : ListKeyFile :=
  assocSet group (assocSet key v ((kf.lookup group).getD [])) kf

/-- Setting one pair leaves all the others alone, in the same group and in others. The laws
on setters come down to this. -/
theorem find_put (kf : ListKeyFile) (group key group' key' : Text) (v : IniValue) :
    (kf.put group key v).find group' key' =
      if (group', key') = (group, key) then some v else kf.find group' key' := by
  rw [find, put, lookup_assocSet]
  by_cases hg : group' = group
  · subst hg
    rw [if_pos rfl, Option.bind_some, lookup_assocSet, find]
    by_cases hk : key' = key
    · rw [if_pos hk, if_pos (by rw [hk])]
    · rw [if_neg hk, if_neg fun h => hk (Prod.mk.inj h).2]
      cases kf.lookup group' <;> rfl
  · rw [if_neg hg, if_neg fun h => hg (Prod.mk.inj h).1]
    rfl

/-- A group name is not empty and has no brackets. -/
def isGroupName (s : Text) : Bool := s ≠ [] ∧ '[' ∉ s ∧ ']' ∉ s

/-- A key name is not empty, has no `'='` and no blank at its ends. -/
def isKeyName (s : Text) : Bool :=
  s ≠ [] ∧ '=' ∉ s ∧ s.head? ≠ some ' ' ∧ s.getLast? ≠ some ' '

/-- `G_KEY_FILE_ERROR_GROUP_NOT_FOUND` -/
def groupNotFound : GError := ⟨"Key file does not have group", 4⟩

/-- `G_KEY_FILE_ERROR_KEY_NOT_FOUND` -/
def keyNotFound : GError := ⟨"Key file does not have key", 3⟩

/-- `G_KEY_FILE_ERROR_INVALID_VALUE`, for a value of another type. -/
def invalidValue : GError := ⟨"Key file contains a value that cannot be interpreted", 5⟩

/-- Read a value as one type: what is not there, and what is of another type, is an error,
and the getter then returns what C code gets without a value. -/
def getTyped {β : Type} (fromValue : IniValue → Option β) (default : β) (v : Option IniValue) :
    β × Option GError :=
  match v with
  | none => (default, some keyNotFound)
  | some v =>
    match fromValue v with
    | none => (default, some invalidValue)
    | some b => (b, none)

/-- The setter and the getter for values of one type; an invalid name and a NULL list are
ignored, as GLib's `g_return_if_fail` does. -/
def typed {α β : Type} (toValue : α → Option IniValue) (fromValue : IniValue → Option β)
    (default : β) : ValueFunctions ListKeyFile α β where
  set kf group key a :=
    match toValue a with
    | some v => if isGroupName group ∧ isKeyName key then kf.put group key v else kf
    | none => kf
  get kf group key := getTyped fromValue default (kf.find group key)

/-- What the value reads as, if it is a string. The getters of the other types are alike:
each reads values of its own type only, although GLib would parse the text anew. -/
def stringOf : IniValue → Option (Option Text)
  | .string s => some (some s)
  | _ => none

def booleanOf : IniValue → Option Bool
  | .boolean b => some b
  | _ => none

def integerOf : IniValue → Option Int32
  | .int i => some i
  | _ => none

def stringListOf : IniValue → Option (CArray Text)
  | .stringArray l => some ⟨some l, l.length⟩
  | _ => none

def booleanListOf : IniValue → Option (CArray Bool)
  | .booleanArray l => some ⟨some l, l.length⟩
  | _ => none

def integerListOf : IniValue → Option (CArray Int32)
  | .intArray l => some ⟨some l, l.length⟩
  | _ => none

/-- `g_key_file_set_string` and `g_key_file_get_string`, which returns a pointer. -/
def string : ValueFunctions ListKeyFile Text (Option Text) :=
  typed (fun s => some (.string s)) stringOf none

def boolean : ValueFunctions ListKeyFile Bool Bool :=
  typed (fun b => some (.boolean b)) booleanOf false

def integer : ValueFunctions ListKeyFile Int32 Int32 :=
  typed (fun i => some (.int i)) integerOf 0

def stringList : ValueFunctions ListKeyFile (Option (List Text)) (CArray Text) :=
  typed (fun l => l.map .stringArray) stringListOf ⟨none, 0⟩

def booleanList : ValueFunctions ListKeyFile (Option (List Bool)) (CArray Bool) :=
  typed (fun l => l.map .booleanArray) booleanListOf ⟨none, 0⟩

def integerList : ValueFunctions ListKeyFile (Option (List Int32)) (CArray Int32) :=
  typed (fun l => l.map .intArray) integerListOf ⟨none, 0⟩

/-- There are no floating-point numbers: the model has no value for them. -/
def double : ValueFunctions ListKeyFile Unit Unit :=
  typed (fun _ => none) (fun _ => none) ()

def doubleList : ValueFunctions ListKeyFile (Option (List Unit)) (CArray Unit) :=
  typed (fun _ => none) (fun _ => none) ⟨none, 0⟩

/-- The name under which a localized value is stored. -/
def localeKey (key locale : Text) : Text := key ++ "[" ++ locale ++ "]"

/-- A localized value, or else the plain one: `g_key_file_get_locale_string` falls back in
this way. -/
def findLocale (kf : ListKeyFile) (group key : Text) (locale : Option Text) : Option IniValue :=
  (locale.bind fun l => kf.find group (localeKey key l)).or (kf.find group key)

def hasGroup (kf : ListKeyFile) (group : Text) : Bool := (kf.lookup group).isSome

/-- `g_key_file_has_key`: asking for a key of a group that there is not is an error, not
`FALSE`. -/
def hasKey (kf : ListKeyFile) (group key : Text) : Bool × Option GError :=
  match kf.lookup group with
  | none => (false, some groupNotFound)
  | some keys => ((keys.lookup key).isSome, none)

/-- `g_key_file_get_keys`, with the same error. -/
def getKeys (kf : ListKeyFile) (group : Text) : CArray Text × Option GError :=
  match kf.lookup group with
  | none => (⟨none, 0⟩, some groupNotFound)
  | some keys => (⟨some (keys.map Prod.fst), keys.length⟩, none)

/-- `g_key_file_remove_group`, which reports a group that there is not. -/
def removeGroup (kf : ListKeyFile) (group : Text) : ListKeyFile × Bool × Option GError :=
  if kf.hasGroup group then (kf.filter fun e => e.1 ≠ group, true, none)
  else (kf, false, some groupNotFound)

/-- `g_key_file_remove_key`. A group stays when its last key is removed. -/
def removeKey (kf : ListKeyFile) (group key : Text) : ListKeyFile × Bool × Option GError :=
  match kf.find group key with
  | none => (kf, false, some keyNotFound)
  | some _ =>
    (assocSet group (((kf.lookup group).getD []).filter fun e => e.1 ≠ key) kf, true, none)

end ListKeyFile

open ListKeyFile

/-- The functions put together, in the order of `GKeyFile`. -/
def listKeyFile : GKeyFile ListKeyFile ListKeyFile Unit where
  loadFromFile := .ok
  saveToFile := id
  isGroupName := isGroupName
  isKeyName := isKeyName
  hasGroup := hasGroup
  hasKey := hasKey
  string := string
  boolean := boolean
  integer := integer
  double := double
  stringList := stringList
  booleanList := booleanList
  integerList := integerList
  doubleList := doubleList
  setLocaleString kf group key locale := string.set kf group (localeKey key locale)
  getLocaleString kf group key locale := getTyped stringOf none (kf.findLocale group key locale)
  setLocaleStringList kf group key locale := stringList.set kf group (localeKey key locale)
  getLocaleStringList kf group key locale :=
    getTyped stringListOf ⟨none, 0⟩ (kf.findLocale group key locale)
  getStartGroup kf := kf.head?.map Prod.fst
  getGroups kf := ⟨some (kf.map Prod.fst), kf.length⟩
  getKeys := getKeys
  removeGroup := removeGroup
  removeKey := removeKey

/-! ## The laws -/

/-- A list that comes with its own length is read to its end. -/
theorem elements_self {τ : Type} (l : List τ) : CArray.elements ⟨some l, l.length⟩ = some l := by
  cases l with
  | nil => rfl
  | cons a l => simp [CArray.elements]

namespace ListKeyFile

/-- Whether a key is there, once the error is set aside. -/
theorem returned_hasKey (kf : ListKeyFile) (group key : Text) :
    (returned some (kf.hasKey group key)).getD false = (kf.find group key).isSome := by
  rw [hasKey, find]
  cases kf.lookup group <;> rfl

/-- What a pair reads as depends on the value found there, and on nothing else of the
file. -/
theorem reading_congr {kf kf' : ListKeyFile} {group key : Text}
    (h : kf'.find group key = kf.find group key) :
    listKeyFile.reading kf' group key = listKeyFile.reading kf group key := by
  have hkey : (returned some (kf'.hasKey group key)).getD false
      = (returned some (kf.hasKey group key)).getD false := by
    rw [returned_hasKey, returned_hasKey, h]
  simp only [GKeyFile.reading, listKeyFile, string, boolean, integer, double, stringList,
    booleanList, integerList, doubleList, typed, h, hkey]

/-- Reading back what has been set is all that is left to show for one type. The laws on
other pairs, invalid names and NULL lists are those of `put`, whatever the type. -/
theorem typed_lawful {α β γ : Type} {toValue : α → Option IniValue}
    {fromValue : IniValue → Option β} {default : β} {convert : β → Option γ}
    {WellFormed : α → Prop} {value : α → Option γ}
    (hvalue : ∀ a v, WellFormed a → value a = some v →
      ∃ w b, toValue a = some w ∧ fromValue w = some b ∧ convert b = some v)
    (hnull : ∀ a, value a = none → toValue a = none) :
    (typed toValue fromValue default).Lawful listKeyFile convert WellFormed value where
  get_set kf group key a v hvalid ha hv := by
    obtain ⟨w, b, hw, hb, hconvert⟩ := hvalue a v ha hv
    have hnames : isGroupName group ∧ isKeyName key := hvalid
    simp only [typed, hw, if_pos hnames, find_put, if_true, getTyped, hb, returned, hconvert]
  hasKey_set kf group key a v hvalid ha hv := by
    obtain ⟨w, b, hw, -, -⟩ := hvalue a v ha hv
    have hnames : isGroupName group ∧ isKeyName key := hvalid
    simp only [typed, hw, if_pos hnames, listKeyFile, hasKey, put, lookup_assocSet, if_true,
      Option.isSome_some]
  reading_set kf group key a group' key' hne := by
    refine reading_congr ?_
    simp only [typed]
    split
    · split
      · rw [find_put, if_neg hne]
      · rfl
    · rfl
  set_invalid kf group key a hinvalid := by
    have hnames : ¬ (isGroupName group ∧ isKeyName key) := hinvalid
    simp only [typed, if_neg hnames]
    split <;> rfl
  set_null kf group key a ha := by simp only [typed, hnull a ha]

end ListKeyFile

theorem string_lawful : string.Lawful listKeyFile id NulFree some :=
  typed_lawful (fun _ _ _ hv => ⟨_, _, rfl, rfl, hv⟩) (fun _ hs => by cases hs)

theorem boolean_lawful : boolean.Lawful listKeyFile some (fun _ => True) some :=
  typed_lawful (fun _ _ _ hv => ⟨_, _, rfl, rfl, hv⟩) (fun _ hb => by cases hb)

theorem integer_lawful : integer.Lawful listKeyFile some (fun _ => True) some :=
  typed_lawful (fun _ _ _ hv => ⟨_, _, rfl, rfl, hv⟩) (fun _ hi => by cases hi)

/-- For lists, the argument is a pointer: `hnull` is the case of NULL. -/
theorem stringList_lawful :
    stringList.Lawful listKeyFile CArray.elements (fun l => ∀ ss ∈ l, ∀ s ∈ ss, NulFree s) id :=
  typed_lawful
    (fun _ v _ hv => ⟨.stringArray v, _, congrArg (Option.map _) hv, rfl, elements_self v⟩)
    (fun _ hl => congrArg (Option.map _) hl)

theorem booleanList_lawful :
    booleanList.Lawful listKeyFile CArray.elements (fun _ => True) id :=
  typed_lawful
    (fun _ v _ hv => ⟨.booleanArray v, _, congrArg (Option.map _) hv, rfl, elements_self v⟩)
    (fun _ hl => congrArg (Option.map _) hl)

theorem integerList_lawful :
    integerList.Lawful listKeyFile CArray.elements (fun _ => True) id :=
  typed_lawful
    (fun _ v _ hv => ⟨.intArray v, _, congrArg (Option.map _) hv, rfl, elements_self v⟩)
    (fun _ hl => congrArg (Option.map _) hl)

/-- So the laws are consistent: there is a key file that obeys them. -/
theorem listKeyFile_laws : KeyFileLaws listKeyFile :=
  ⟨string_lawful, boolean_lawful, integer_lawful, stringList_lawful, booleanList_lawful,
    integerList_lawful⟩

namespace ListKeyFile

/-- `hasKey` of a reading says whether there is a value. -/
theorem reading_hasKey (kf : ListKeyFile) (group key : Text) :
    (listKeyFile.reading kf group key).hasKey = (kf.find group key).isSome :=
  returned_hasKey kf group key

/-- The groups of the contents are those of the list, in its order. -/
theorem contents_groups (kf : ListKeyFile) :
    (listKeyFile.contents kf).groups = some (kf.map Prod.fst) := by
  have h := elements_self (kf.map Prod.fst)
  rwa [List.length_map] at h

/-- A group that is found is one of the groups that `g_key_file_get_groups` lists. -/
theorem mem_of_hasGroup {kf : ListKeyFile} {group : Text} (h : kf.hasGroup group = true) :
    group ∈ kf.map Prod.fst := by
  by_contra hmem
  have hnone : kf.lookup group = none := by
    rw [List.lookup_eq_none_iff]
    intro e he
    refine bne_iff_ne.mpr fun heq => hmem ?_
    exact heq ▸ List.mem_map_of_mem he
  rw [hasGroup, hnone] at h
  cases h

end ListKeyFile

/-- And with them those on loading, saving and removing. -/
theorem listKeyFile_storeLaws : StoreLaws listKeyFile where
  load_save kf := ⟨kf, rfl, rfl⟩
  removeGroup kf group h := by
    refine ⟨kf.filter fun e => e.1 ≠ group, true, if_pos h, fun heq => ?_⟩
    rw [contents_groups, contents_groups] at heq
    have hmem := Option.some.inj heq ▸ mem_of_hasGroup h
    obtain ⟨e, he, hgroup⟩ := List.mem_map.mp hmem
    exact absurd hgroup (by simpa using (List.mem_filter.mp he).2)
  removeGroup_error kf group h := by
    refine ⟨false, groupNotFound, if_neg ?_⟩
    rw [show kf.hasGroup group = false from h]
    exact Bool.false_ne_true
  removeKey kf group key h := by
    rw [reading_hasKey, Option.isSome_iff_exists] at h
    obtain ⟨v, hv⟩ := h
    let rest := ((kf.lookup group).getD []).filter fun e => e.1 ≠ key
    have hremove : listKeyFile.removeKey kf group key = (assocSet group rest kf, true, none) := by
      simp only [listKeyFile, removeKey, hv]
      rfl
    refine ⟨_, _, hremove, ?_⟩
    rw [reading_hasKey, find, lookup_assocSet, if_pos rfl, Option.bind_some, lookup_filter_ne]
    rfl
  removeKey_error kf group key h := by
    rw [reading_hasKey, Option.isSome_eq_false_iff, Option.isNone_iff_eq_none] at h
    exact ⟨false, keyNotFound, by simp only [listKeyFile, removeKey, h]⟩

end LomiriApi
