import Mathlib.Data.List.Infix

/-!
# Lines and separators

A text is built line by line, each line after a separator: `afterSep sep ls`. The
separator in front of the first line is dropped by `joinSep`.

- `splitOn_joinSep`: splitting at the separator gives the lines back, if none of
  them contains it.
- `infix_joinSep`: every line is part of the text.
- `prefixLines`: a margin in front of each line of a text. A text that is put
  together from pieces with that margin is the same thing only as long as the
  pieces are lines (`joinSep_map_eq_prefixLines_iff`).
-/

namespace Lib

universe u

variable {α : Type u}

/-- Every line, each after a separator. -/
def afterSep (sep : α) (ls : List (List α)) : List α := ls.flatMap fun l => sep :: l

/-- The lines with separators between them. -/
def joinSep (sep : α) (ls : List (List α)) : List α := (afterSep sep ls).tail

@[simp] theorem afterSep_nil (sep : α) : afterSep sep [] = [] := rfl

@[simp] theorem afterSep_cons (sep : α) (l : List α) (ls : List (List α)) :
    afterSep sep (l :: ls) = sep :: (l ++ afterSep sep ls) := rfl

/-- Blocks of lines are put one after the other without regard to what is in them. -/
@[simp] theorem afterSep_append (sep : α) (ls ms : List (List α)) :
    afterSep sep (ls ++ ms) = afterSep sep ls ++ afterSep sep ms := by
  simp [afterSep]

/-- The first line has no separator before it, the others have: hence `afterSep`, which is
the part that composes. -/
@[simp] theorem joinSep_cons (sep : α) (l : List α) (ls : List (List α)) :
    joinSep sep (l :: ls) = l ++ afterSep sep ls := rfl

/-- So the splitting lemmas of `List.intercalate` apply. -/
theorem joinSep_eq_intercalate (sep : α) (ls : List (List α)) :
    joinSep sep ls = [sep].intercalate ls := by
  cases ls with
  | nil => rfl
  | cons l ls =>
    induction ls generalizing l with
    | nil => simp
    | cons m ls ih =>
      rw [List.intercalate_cons_cons, ← ih m]
      simp

/-- Lines without a separator in them are read back as they were. -/
theorem splitOn_joinSep [BEq α] [LawfulBEq α] {sep : α} {ls : List (List α)}
    (h : ∀ l ∈ ls, sep ∉ l) (hne : ls ≠ []) : (joinSep sep ls).splitOn sep = ls := by
  rw [joinSep_eq_intercalate, List.splitOn_intercalate sep h hne]

theorem infix_afterSep {sep : α} {ls : List (List α)} {l : List α} (h : l ∈ ls) :
    l <:+: afterSep sep ls := by
  have hmem : sep :: l ∈ ls.map fun l => sep :: l := List.mem_map_of_mem h
  exact List.IsInfix.trans ⟨[sep], [], by simp⟩ (List.infix_of_mem_flatten hmem)

/-- Every line is part of the text. -/
theorem infix_joinSep {sep : α} {ls : List (List α)} {l : List α} (h : l ∈ ls) :
    l <:+: joinSep sep ls := by
  cases ls with
  | nil => cases h
  | cons m ms =>
    rw [joinSep_cons]
    rcases List.mem_cons.mp h with rfl | h
    · exact List.infix_append_left
    · exact (infix_afterSep h).trans List.infix_append_right

/-! ## A margin in front of every line -/

/-- The text with `m` in front of each of its lines. -/
def prefixLines [BEq α] (sep : α) (m s : List α) : List α :=
  joinSep sep ((s.splitOn sep).map (m ++ ·))

/-- And any text is that of its lines. -/
theorem joinSep_splitOn [BEq α] [LawfulBEq α] (sep : α) (s : List α) :
    joinSep sep (s.splitOn sep) = s := by
  rw [joinSep_eq_intercalate, List.intercalate_splitOn]

@[simp] theorem prefixLines_nil [BEq α] [LawfulBEq α] (sep : α) (s : List α) :
    prefixLines sep [] s = s := by
  simp [prefixLines, joinSep_splitOn]

/-- How much longer a text gets when every line gets the same beginning. Lengths are what
tells the lines of a text from those that are in a line. -/
theorem length_afterSep_map (sep : α) (m : List α) (ls : List (List α)) :
    (afterSep sep (ls.map (m ++ ·))).length =
      ls.length * m.length + (afterSep sep ls).length := by
  induction ls with
  | nil => simp
  | cons l ls ih =>
    simp only [List.map_cons, afterSep_cons, List.length_cons, List.length_append, ih,
      Nat.succ_mul]
    omega

/-- Each line gets longer by the margin. -/
theorem length_joinSep_map (sep : α) (m : List α) (ls : List (List α)) :
    (joinSep sep (ls.map (m ++ ·))).length =
      ls.length * m.length + (joinSep sep ls).length := by
  cases ls with
  | nil => simp [joinSep]
  | cons l ls =>
    simp only [List.map_cons, joinSep_cons, List.length_append, List.length_cons,
      length_afterSep_map, Nat.succ_mul]
    omega

/-- A text has one line more than separators. -/
theorem length_splitOn [BEq α] [LawfulBEq α] (sep : α) (s : List α) :
    (s.splitOn sep).length = s.count sep + 1 := by
  induction s with
  | nil => simp
  | cons c s ih =>
    rw [List.splitOn_cons_eq_if_modifyHead, List.count_cons]
    cases c == sep with
    | true => simp [ih]
    | false => simp [ih]

/-- The separators of a text are those between its lines and those inside of them. -/
theorem count_afterSep [BEq α] [LawfulBEq α] (sep : α) (ls : List (List α)) :
    (afterSep sep ls).count sep = ls.length + ls.flatten.count sep := by
  induction ls with
  | nil => rfl
  | cons l ls ih =>
    simp only [afterSep_cons, List.count_cons_self, List.count_append, ih, List.length_cons,
      List.flatten_cons]
    omega

/-- The separators between the pieces, and those inside of them. -/
theorem count_joinSep [BEq α] [LawfulBEq α] (sep : α) {ls : List (List α)} (hne : ls ≠ []) :
    (joinSep sep ls).count sep + 1 = ls.length + ls.flatten.count sep := by
  cases ls with
  | nil => exact absurd rfl hne
  | cons l ls =>
    simp only [joinSep_cons, List.count_append, count_afterSep, List.length_cons,
      List.flatten_cons]
    omega

/-- A margin in front of every piece of a text is a margin in front of every line
exactly if it is empty or the pieces are lines. -/
theorem joinSep_map_eq_prefixLines_iff [BEq α] [LawfulBEq α] (sep : α) (m : List α)
    {ls : List (List α)} (hne : ls ≠ []) :
    joinSep sep (ls.map (m ++ ·)) = prefixLines sep m (joinSep sep ls) ↔
      m = [] ∨ ∀ l ∈ ls, sep ∉ l := by
  constructor
  · intro h
    refine Classical.or_iff_not_imp_left.mpr fun hm l hl hmem => ?_
    have hlen := congrArg List.length h
    rw [prefixLines, length_joinSep_map, length_joinSep_map, joinSep_splitOn, length_splitOn,
      count_joinSep sep hne] at hlen
    -- as many pieces as lines, so no separator inside a piece
    have hmul : ls.length * m.length = (ls.length + ls.flatten.count sep) * m.length := by
      omega
    have hlines : ls.length = ls.length + ls.flatten.count sep :=
      Nat.eq_of_mul_eq_mul_right (List.length_pos_iff.mpr hm) hmul
    have hinside : 0 < ls.flatten.count sep :=
      List.count_pos_iff.mpr (List.mem_flatten.mpr ⟨l, hl, hmem⟩)
    omega
  · rintro (rfl | h)
    · simp
    · rw [prefixLines, splitOn_joinSep h hne]

end Lib
