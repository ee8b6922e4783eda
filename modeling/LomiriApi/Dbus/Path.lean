import LomiriApi.Dbus.Sanitize
import Mathlib.Data.List.Chain

/-!
# The object paths of `dbus_sanitized_path`

- `ValidObjectPath`: what a D-Bus object path looks like.
- `Base`: a base, by its elements; `Base.spelling` writes it with or without the slashes
  at its ends.
- `dbusSanitizedPath_spelling`: whichever way the base is spelled, the result is its
  elements, each after a slash, and then the sanitised string after another.
- `dbusSanitizedPath_valid_iff`: that is valid unless the string is empty and the base is
  not the root.
-/

namespace LomiriApi

namespace Dbus

/-- The characters between the slashes. -/
def IsElementChar (c : UInt8) : Prop := isalnum c = true ∨ c = underscore

/-- What the D-Bus specification asks of an object path: it begins with a slash, is the
root or does not end with one, has no two slashes in a row, and no other characters than
letters, digits and underscores between them. -/
structure ValidObjectPath (path : Bytes) : Prop where
  absolute : path.head? = some slash
  chars : ∀ c ∈ path, c = slash ∨ IsElementChar c
  /-- no element is empty -/
  separated : path.IsChain fun a b => ¬ (a = slash ∧ b = slash)
  trailing : path.getLast? = some slash → path = [slash]

/-- The elements of a base; the root has none. -/
structure Base where
  elements : List Bytes
  nonempty : ∀ e ∈ elements, e ≠ []
  chars : ∀ e ∈ elements, ∀ c ∈ e, IsElementChar c

/-- The base as it is written, with a slash in front if `leading`, and one behind if
`trailing`. -/
def Base.spelling (base : Base) (leading trailing : Bool) : Bytes :=
  if base.elements = [] then [slash]
  else
    (if leading then [slash] else []) ++ [slash].intercalate base.elements ++
      (if trailing then [slash] else [])

/-- Each element after a slash. -/
def Base.normal (base : Base) : Bytes := base.elements.flatMap fun e => slash :: e

/-! ## Slashes -/

/-- The slash is no character of an element, so it separates them. -/
theorem not_isElementChar_slash : ¬ IsElementChar slash := by
  rintro (h | h)
  · exact absurd h (by decide)
  · exact absurd h (by decide)

theorem ne_slash {c : UInt8} (h : IsElementChar c) : c ≠ slash := by
  rintro rfl
  exact not_isElementChar_slash h

/-- An element that is not empty does not end with a slash. -/
theorem getLast?_ne_slash {s : Bytes} (hne : s ≠ []) (hs : ∀ c ∈ s, IsElementChar c) :
    s.getLast? ≠ some slash := by
  rw [List.getLast?_eq_getLast_of_ne_nil hne]
  intro h
  exact ne_slash (hs _ (List.getLast_mem hne)) (Option.some.inj h)

/-- Inside of an element there are no two slashes in a row. -/
theorem isChain_chars {s : Bytes} (hs : ∀ c ∈ s, IsElementChar c) (a : UInt8) :
    (a :: s).IsChain fun a b => ¬ (a = slash ∧ b = slash) := by
  induction s generalizing a with
  | nil => exact List.IsChain.singleton a
  | cons b s ih =>
    refine List.isChain_cons_cons.mpr ⟨fun h => ?_, ih (fun c hc => hs c (.tail b hc)) b⟩
    exact ne_slash (hs b List.mem_cons_self) h.2

/-! ## Elements joined by slashes -/

/-- A slash in front of each element, or one in front and the others in between: the code
does the latter. -/
theorem slash_intercalate {es : List Bytes} (h : es ≠ []) :
    slash :: [slash].intercalate es = es.flatMap fun e => slash :: e := by
  induction es with
  | nil => exact absurd rfl h
  | cons e es ih =>
    cases es with
    | nil => rw [List.intercalate_singleton, List.flatMap_singleton]
    | cons e' es =>
      rw [List.intercalate_cons_cons, List.flatMap_cons, ← ih (List.cons_ne_nil e' es),
        List.append_assoc]
      rfl

/-- The elements of a base begin with no slash, so the code has to add one. -/
theorem head?_intercalate {es : List Bytes} (h : es ≠ [])
    (hne : ∀ e ∈ es, e ≠ []) (hchars : ∀ e ∈ es, ∀ c ∈ e, IsElementChar c) :
    ∃ c, c ≠ slash ∧ ([slash].intercalate es).head? = some c := by
  obtain ⟨e, es, rfl⟩ := List.exists_cons_of_ne_nil h
  obtain ⟨c, e, rfl⟩ := List.exists_cons_of_ne_nil (hne e List.mem_cons_self)
  refine ⟨c, ne_slash (hchars _ List.mem_cons_self c List.mem_cons_self), ?_⟩
  cases es with
  | nil => rw [List.intercalate_singleton, List.head?_cons]
  | cons e' es => rw [List.intercalate_cons_cons, List.append_assoc, List.cons_append,
      List.head?_cons]

/-- A path ends with the end of its last element. -/
theorem getLast?_elements {es : List Bytes} (h : es ≠ []) (hne : ∀ e ∈ es, e ≠ [])
    (hchars : ∀ e ∈ es, ∀ c ∈ e, IsElementChar c) :
    (es.flatMap fun e => slash :: e).getLast? ≠ some slash := by
  obtain ⟨es, e, rfl⟩ := (List.eq_nil_or_concat' es).resolve_left h
  have he : e ∈ es ++ [e] := List.mem_append_right es List.mem_cons_self
  have hlast : ((es ++ [e]).flatMap fun e => slash :: e).getLast? = e.getLast? := by
    rw [List.flatMap_append, List.flatMap_singleton,
      List.getLast?_append_of_ne_nil _ (List.cons_ne_nil slash e)]
    obtain ⟨c, e', rfl⟩ := List.exists_cons_of_ne_nil (hne e he)
    exact List.getLast?_cons_cons
  rw [hlast]
  exact getLast?_ne_slash (hne e he) (hchars e he)

/-- A path has no two slashes in a row, if none of its elements but the last is empty. -/
theorem isChain_elements {es : List Bytes} (hne : ∀ e ∈ es, e ≠ [])
    (hchars : ∀ e ∈ es, ∀ c ∈ e, IsElementChar c) {q : Bytes} (hq : ∀ c ∈ q, IsElementChar c) :
    (es.flatMap (fun e => slash :: e) ++ slash :: q).IsChain
      fun a b => ¬ (a = slash ∧ b = slash) := by
  induction es with
  | nil => exact isChain_chars hq slash
  | cons e es ih =>
    have he : e ≠ [] := hne e List.mem_cons_self
    rw [List.flatMap_cons, List.append_assoc, List.isChain_append]
    refine ⟨isChain_chars (hchars e List.mem_cons_self) slash,
      ih (fun e' h => hne e' (.tail e h)) (fun e' h => hchars e' (.tail e h)), ?_⟩
    -- what is in front of the next slash is the last character of `e`
    rintro a ha b - ⟨rfl, -⟩
    obtain ⟨c, e', rfl⟩ := List.exists_cons_of_ne_nil he
    rw [List.getLast?_cons_cons] at ha
    exact getLast?_ne_slash he (hchars _ List.mem_cons_self) ha

/-- The characters of a path are slashes and those of its elements. -/
theorem chars_elements {es : List Bytes} (hchars : ∀ e ∈ es, ∀ c ∈ e, IsElementChar c)
    {q : Bytes} (hq : ∀ c ∈ q, IsElementChar c) :
    ∀ c ∈ es.flatMap (fun e => slash :: e) ++ slash :: q, c = slash ∨ IsElementChar c := by
  intro c hc
  rcases List.mem_append.mp hc with hc | hc
  · obtain ⟨e, he, hce⟩ := List.mem_flatMap.mp hc
    exact (List.mem_cons.mp hce).imp id fun h => hchars e he c h
  · exact (List.mem_cons.mp hc).imp id fun h => hq c h

/-- Elements, and one more after the last slash: that one may only be empty in the root. -/
theorem validObjectPath_iff {es : List Bytes} (hne : ∀ e ∈ es, e ≠ [])
    (hchars : ∀ e ∈ es, ∀ c ∈ e, IsElementChar c) {q : Bytes} (hq : ∀ c ∈ q, IsElementChar c) :
    ValidObjectPath (es.flatMap (fun e => slash :: e) ++ slash :: q) ↔ q ≠ [] ∨ es = [] := by
  constructor
  · intro hvalid
    by_cases hempty : q = []
    · subst hempty
      have hroot := hvalid.trailing (List.getLast?_concat ..)
      rw [List.append_eq_singleton_iff] at hroot
      rcases hroot with ⟨hes, -⟩ | ⟨-, hnil⟩
      · cases es with
        | nil => exact .inr rfl
        | cons e es => cases hes
      · cases hnil
    · exact .inl hempty
  · intro h
    refine ⟨?_, chars_elements hchars hq, isChain_elements hne hchars hq, fun htrailing => ?_⟩
    · cases es <;> rfl
    · by_cases hempty : q = []
      · subst hempty
        rw [h.resolve_left fun hne => hne rfl]
        rfl
      · obtain ⟨c, q', rfl⟩ := List.exists_cons_of_ne_nil hempty
        rw [List.getLast?_append_of_ne_nil _ (List.cons_ne_nil _ _),
          List.getLast?_cons_cons] at htrailing
        exact absurd htrailing (getLast?_ne_slash hempty hq)

/-! ## The result -/

/-- However the base is spelled, its elements come out, each after a slash. -/
theorem dbusSanitizedPath_spelling (charSigned : Bool) (base : Base) (leading trailing : Bool)
    (path : Bytes) :
    dbusSanitizedPath charSigned (base.spelling leading trailing) path =
      base.normal ++ slash :: dbusSanitizeStr charSigned path := by
  by_cases hroot : base.elements = []
  · have hnormal : base.normal = [] := by rw [Base.normal, hroot, List.flatMap_nil]
    rw [Base.spelling, if_pos hroot, hnormal]
    rfl
  · obtain ⟨c, hc, hhead⟩ := head?_intercalate hroot base.nonempty base.chars
    have hlast : base.normal.getLast? ≠ some slash :=
      getLast?_elements hroot base.nonempty base.chars
    have hjoin : slash :: [slash].intercalate base.elements = base.normal :=
      slash_intercalate hroot
    -- after the first two statements the output is the normal form, with a slash or not
    have hfront : (if (base.spelling leading trailing).head? ≠ some slash then [slash]
        else []) ++ base.spelling leading trailing =
          base.normal ++ if trailing then [slash] else [] := by
      rw [Base.spelling, if_neg hroot, ← hjoin]
      cases leading with
      | true =>
        have hfirst : ([slash] ++ [slash].intercalate base.elements ++
            if trailing = true then [slash] else []).head? = some slash := rfl
        rw [if_pos rfl, if_neg (not_not.mpr hfirst)]
        rfl
      | false =>
        have hne : ([slash].intercalate base.elements ++
            if trailing = true then [slash] else []).head? ≠ some slash := by
          rw [List.head?_append, hhead]
          exact fun h => hc (Option.some.inj h)
        rw [if_neg Bool.false_ne_true, List.nil_append, if_pos hne]
        rfl
    unfold dbusSanitizedPath
    simp only [hfront]
    cases trailing with
    | true =>
      rw [if_pos rfl, List.getLast?_concat, if_neg (not_not.mpr rfl), List.append_assoc]
      rfl
    | false =>
      rw [if_neg Bool.false_ne_true, List.append_nil, if_pos hlast, List.append_assoc]
      rfl

/-- Only the empty string is sanitized to the empty one. -/
theorem dbusSanitizeStr_eq_nil_iff (charSigned : Bool) (path : Bytes) :
    dbusSanitizeStr charSigned path = [] ↔ path = [] := by
  have hnil : dbusSanitizeStr charSigned [] = [] := rfl
  constructor
  · exact fun h => dbusSanitizeStr_inj (h.trans hnil.symm)
  · rintro rfl
    exact hnil

/-- **The path is valid** exactly if the string is not empty or the base is the root; it
does not depend on how the base is spelled, and different strings have different paths. -/
theorem dbusSanitizedPath_valid_iff (charSigned : Bool) (base : Base)
    (leading trailing : Bool) :
    (∀ path, ValidObjectPath
        (dbusSanitizedPath charSigned (base.spelling leading trailing) path) ↔
      path ≠ [] ∨ base.elements = []) ∧
    (∀ leading' trailing' path,
      dbusSanitizedPath charSigned (base.spelling leading trailing) path =
        dbusSanitizedPath charSigned (base.spelling leading' trailing') path) ∧
    Function.Injective (dbusSanitizedPath charSigned (base.spelling leading trailing)) := by
  refine ⟨fun path => ?_, fun leading' trailing' path => ?_, fun s t h => ?_⟩
  · rw [dbusSanitizedPath_spelling, Base.normal, validObjectPath_iff base.nonempty base.chars
      (fun c hc => dbusSanitizeStr_chars hc), ne_eq, dbusSanitizeStr_eq_nil_iff]
  · rw [dbusSanitizedPath_spelling, dbusSanitizedPath_spelling]
  · rw [dbusSanitizedPath_spelling, dbusSanitizedPath_spelling] at h
    exact dbusSanitizeStr_inj (List.cons.inj (List.append_cancel_left h)).2

/-- `/com/blah` -/
def comBlah : Base where
  elements := ["com", "blah"]
  nonempty := by decide
  chars e he c hc := by
    have hall : (["com", "blah"] : List Bytes).all (fun e => e.all isalnum) = true := by decide
    exact .inl (List.all_eq_true.mp (List.all_eq_true.mp hall e he) c hc)

/-- The empty string leaves a slash at the end. -/
theorem comBlah_empty_not_valid :
    dbusSanitizedPath true (comBlah.spelling true false) [] = ("/com/blah/" : Bytes) ∧
      ¬ ValidObjectPath (dbusSanitizedPath true (comBlah.spelling true false) []) := by
  refine ⟨by decide, fun hvalid => ?_⟩
  exact absurd (hvalid.trailing (by decide)) (by decide)

end Dbus

end LomiriApi
