import LomiriApi.Dbus.Path
import LomiriApi.Lib.Lines

/-!
# Trees of objects

A service that has objects below objects makes the path of each from the path of its
parent: the result of `dbus_sanitized_path` is the base of the next call.

- `objectPath`: the path of an object, by the names from the base down.
- `elements`: what is between the slashes of a path.
- `elements_objectPath`: the elements are those of the base, and one for each name that is
  not empty.
- `objectPath_tree`: so the tree of paths is the tree of names.
-/

namespace LomiriApi

namespace Dbus

open Lib

/-- The path of the object with these names below `base`. Each name is sanitized and
appended to the path of the one above. -/
def objectPath (charSigned : Bool) (base : Bytes) (names : List Bytes) : Bytes :=
  names.foldl (dbusSanitizedPath charSigned) base

/-- What is between the slashes of a path, where there is something. Doubled slashes and
one at the end make no element. -/
def elements (path : Bytes) : List Bytes := (path.splitOn slash).filter (· ≠ [])

/-- The names that make an element. -/
def proper (names : List Bytes) : List Bytes := names.filter (· ≠ [])

/-- The base with the names below it. So the results on one name can be used for a chain of
names. -/
def Base.extend (charSigned : Bool) (base : Base) (names : List Bytes) : Base where
  elements := base.elements ++ (proper names).map (dbusSanitizeStr charSigned)
  nonempty e he := by
    rcases List.mem_append.mp he with hbase | hname
    · exact base.nonempty e hbase
    · obtain ⟨name, hmem, rfl⟩ := List.mem_map.mp hname
      rw [ne_eq, dbusSanitizeStr_eq_nil_iff]
      exact of_decide_eq_true (List.mem_filter.mp hmem).2
  chars e he := by
    rcases List.mem_append.mp he with hbase | hname
    · exact base.chars e hbase
    · obtain ⟨name, -, rfl⟩ := List.mem_map.mp hname
      exact fun c hc => dbusSanitizeStr_chars hc

/-! ## Bases as they are written -/

/-- With a slash in front. -/
theorem Base.spelling_leading (base : Base) (trailing : Bool) :
    base.spelling true trailing =
      if base.elements = [] then [slash]
      else base.normal ++ if trailing then [slash] else [] := by
  unfold Base.spelling
  by_cases hroot : base.elements = []
  · rw [if_pos hroot, if_pos hroot]
  · rw [if_neg hroot, if_neg hroot, if_pos rfl, List.singleton_append, slash_intercalate hroot]
    rfl

theorem slash_notMem {s : Bytes} (hs : ∀ c ∈ s, IsElementChar c) : slash ∉ s :=
  fun h => not_isElementChar_slash (hs slash h)

/-- The elements can be read off, whichever way the base is written. This is why the tree
of paths is that of the names. -/
theorem Base.elements_spelling (base : Base) (leading trailing : Bool) :
    Dbus.elements (base.spelling leading trailing) = base.elements := by
  by_cases hroot : base.elements = []
  · rw [Base.spelling, if_pos hroot, hroot]
    decide
  · -- the slashes at the ends separate empty elements
    have hjoin : base.spelling leading trailing = joinSep slash
        ((if leading then [[]] else []) ++ base.elements ++ if trailing then [[]] else []) := by
      obtain ⟨e, es, hes⟩ := List.exists_cons_of_ne_nil hroot
      rw [Base.spelling, if_neg hroot, ← joinSep_eq_intercalate, hes]
      cases leading <;> cases trailing <;> simp
    have hkeep : base.elements.filter (· ≠ []) = base.elements :=
      List.filter_eq_self.mpr fun e he => decide_eq_true (base.nonempty e he)
    rw [Dbus.elements, hjoin, splitOn_joinSep, List.filter_append, List.filter_append, hkeep]
    · cases leading <;> cases trailing <;> simp
    · intro e he
      rcases List.mem_append.mp he with he | he
      · rcases List.mem_append.mp he with he | he
        · cases leading <;> simp_all
        · exact slash_notMem (base.chars e he)
      · cases trailing <;> simp_all
    · exact fun hnil => hroot (List.append_eq_nil_iff.mp (List.append_eq_nil_iff.mp hnil).1).2

/-! ## One name after the other -/

theorem proper_append (names names' : List Bytes) :
    proper (names ++ names') = proper names ++ proper names' := List.filter_append ..

theorem Base.extend_elements (charSigned : Bool) (base : Base) (names : List Bytes)
    {name : Bytes} (hname : name ≠ []) :
    (base.extend charSigned (names ++ [name])).elements =
      (base.extend charSigned names).elements ++ [dbusSanitizeStr charSigned name] := by
  have hproper : proper [name] = [name] := List.filter_eq_self.mpr (by simpa using hname)
  show base.elements ++ (proper (names ++ [name])).map _
    = base.elements ++ (proper names).map _ ++ _
  rw [proper_append, hproper, List.map_append, List.append_assoc]
  rfl

/-- The next name: an element more, or a slash at the end if the name is empty. -/
theorem dbusSanitizedPath_extend (charSigned : Bool) (base : Base) (names : List Bytes)
    (leading trailing : Bool) (name : Bytes) :
    dbusSanitizedPath charSigned ((base.extend charSigned names).spelling leading trailing) name =
      (base.extend charSigned (names ++ [name])).spelling true (name = []) := by
  rw [dbusSanitizedPath_spelling, Base.spelling_leading]
  by_cases hname : name = []
  · subst hname
    have hsame : base.extend charSigned (names ++ [[]]) = base.extend charSigned names := by
      have hproper : proper (names ++ [[]]) = proper names := by simp [proper]
      unfold Base.extend
      simp only [hproper]
    rw [hsame, (dbusSanitizeStr_eq_nil_iff charSigned []).mpr rfl]
    by_cases hroot : (base.extend charSigned names).elements = []
    · rw [if_pos hroot, Base.normal, hroot]
      rfl
    · rw [if_neg hroot]
      rfl
  · rw [Base.normal, Base.normal, base.extend_elements charSigned names hname,
      if_neg (List.append_ne_nil_of_right_ne_nil _ (List.cons_ne_nil _ _)), List.flatMap_append]
    simp [hname]

/-- The path of an object is its base with the names below it, in one spelling or another. -/
theorem objectPath_eq_spelling (charSigned : Bool) (base : Base) (leading trailing : Bool)
    (names : List Bytes) :
    ∃ leading' trailing', objectPath charSigned (base.spelling leading trailing) names =
      (base.extend charSigned names).spelling leading' trailing' := by
  induction names using List.reverseRecOn with
  | nil =>
    have hsame : base.extend charSigned [] = base := by
      simp [Base.extend, proper]
    exact ⟨leading, trailing, by rw [hsame]; rfl⟩
  | append_singleton names name ih =>
    obtain ⟨leading', trailing', ih⟩ := ih
    refine ⟨true, decide (name = []), ?_⟩
    rw [objectPath, List.foldl_concat, ← objectPath, ih, dbusSanitizedPath_extend]

theorem elements_objectPath (charSigned : Bool) (base : Base) (leading trailing : Bool)
    (names : List Bytes) :
    elements (objectPath charSigned (base.spelling leading trailing) names) =
      base.elements ++ (proper names).map (dbusSanitizeStr charSigned) := by
  obtain ⟨leading', trailing', h⟩ :=
    objectPath_eq_spelling charSigned base leading trailing names
  rw [h, Base.elements_spelling]
  rfl

/-! ## The tree -/

theorem map_prefix_iff {f : Bytes → Bytes} (hf : Function.Injective f) (s t : List Bytes) :
    s.map f <+: t.map f ↔ s <+: t := by
  rw [List.prefix_map_iff]
  constructor
  · rintro ⟨u, hu, heq⟩
    exact List.map_injective_iff.mpr hf heq ▸ hu
  · exact fun h => ⟨s, h, rfl⟩

/-- **The tree of paths is the tree of names**, wherever it begins: one object is at or
below another exactly if the names are, but for empty ones. A path is valid exactly if its
last name is not empty, or nothing is below the root yet. -/
theorem objectPath_tree (charSigned : Bool) (base : Base) (leading trailing : Bool) :
    (∀ names names',
      elements (objectPath charSigned (base.spelling leading trailing) names) <+:
          elements (objectPath charSigned (base.spelling leading trailing) names') ↔
        proper names <+: proper names') ∧
    ∀ names name,
      ValidObjectPath
          (objectPath charSigned (base.spelling leading trailing) (names ++ [name])) ↔
        name ≠ [] ∨ base.elements = [] ∧ ∀ n ∈ names, n = [] := by
  constructor
  · intro names names'
    rw [elements_objectPath, elements_objectPath, List.prefix_append_right_inj]
    exact map_prefix_iff (fun _ _ => dbusSanitizeStr_inj) _ _
  · intro names name
    obtain ⟨leading', trailing', h⟩ :=
      objectPath_eq_spelling charSigned base leading trailing names
    rw [objectPath, List.foldl_concat, ← objectPath, h, dbusSanitizedPath_spelling, Base.normal,
      validObjectPath_iff (base.extend charSigned names).nonempty
        (base.extend charSigned names).chars (fun c hc => dbusSanitizeStr_chars hc), ne_eq,
      dbusSanitizeStr_eq_nil_iff]
    simp [Base.extend, proper]

end Dbus

end LomiriApi
