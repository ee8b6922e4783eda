import Mathlib.Data.List.Basic

/-!
# Tables of numbered slots

A table holds something in some of its slots, which are numbered from 0 on; the
slots beyond its end are free.

- `lookup`, `clear`, `alloc`: what a slot holds, freeing a slot, and allocation in
  the lowest free slot.
- `lowestFree_eq_iff`: how the lowest free slot is recognised.
- `lookup_clear_alloc`: freeing what was just allocated restores the table.
-/

namespace Lib

universe u

/-- The entries by number. A number beyond the end is free, like one that was cleared, so
the table needs no bound. -/
abbrev Slots (α : Type u) := List (Option α)

namespace Slots

variable {α : Type u}

/-- What the slot `n` holds. -/
def lookup (t : Slots α) (n : Nat) : Option α := t[n]?.join

/-- The lowest slot that holds nothing. -/
def lowestFree (t : Slots α) : Nat := t.findIdx Option.isNone

/-- Put `a` in the lowest free slot. -/
def alloc (t : Slots α) (a : α) : Slots α :=
  if t.lowestFree < t.length then t.set t.lowestFree (some a) else t ++ [some a]

/-- Free the slot `n`. -/
def clear (t : Slots α) (n : Nat) : Slots α := t.set n none

/-- Clearing a slot touches no other one. -/
theorem lookup_clear (t : Slots α) (n k : Nat) :
    (t.clear n).lookup k = if k = n then none else t.lookup k := by
  rw [lookup, lookup, clear, List.getElem?_set]
  by_cases hk : k = n
  · subst hk
    rw [if_pos rfl, if_pos rfl]
    split <;> rfl
  · rw [if_neg (Ne.symm hk), if_neg hk]

/-- Beyond its end a table has nothing. -/
theorem lookup_of_length_le {t : Slots α} {n : Nat} (h : t.length ≤ n) : t.lookup n = none := by
  rw [lookup, List.getElem?_eq_none h]
  rfl

/-- There is a free slot at the end at the latest. -/
theorem lowestFree_le_length (t : Slots α) : t.lowestFree ≤ t.length :=
  List.findIdx_le_length

/-- The lowest free slot is free indeed. -/
theorem lookup_lowestFree (t : Slots α) : t.lookup t.lowestFree = none := by
  by_cases h : t.lowestFree < t.length
  · have hnone : (t[t.lowestFree]).isNone = true := List.findIdx_getElem (w := h)
    rw [lookup, List.getElem?_eq_getElem h, Option.join_some]
    exact Option.isNone_iff_eq_none.mp hnone
  · exact lookup_of_length_le (Nat.le_of_not_lt h)

/-- No slot below it is free. -/
theorem lookup_ne_none_of_lt {t : Slots α} {n : Nat} (h : n < t.lowestFree) :
    t.lookup n ≠ none := by
  have hlen : n < t.length := Nat.lt_of_lt_of_le h t.lowestFree_le_length
  have hsome : (t[n]).isNone = false := List.not_of_lt_findIdx h
  rw [lookup, List.getElem?_eq_getElem hlen, Option.join_some]
  intro heq
  rw [heq] at hsome
  cases hsome

/-- The lowest free slot is free, and all below it are taken. -/
theorem lowestFree_eq_iff {t : Slots α} {n : Nat} :
    t.lowestFree = n ↔ t.lookup n = none ∧ ∀ k < n, t.lookup k ≠ none := by
  constructor
  · rintro rfl
    exact ⟨t.lookup_lowestFree, fun k hk => lookup_ne_none_of_lt hk⟩
  · rintro ⟨hfree, hbelow⟩
    rcases Nat.lt_trichotomy t.lowestFree n with hlt | heq | hgt
    · exact absurd t.lookup_lowestFree (hbelow _ hlt)
    · exact heq
    · exact absurd hfree (lookup_ne_none_of_lt hgt)

/-- The lowest free slot only depends on what the slots hold. -/
theorem lowestFree_congr {t u : Slots α} (h : ∀ k, t.lookup k = u.lookup k) :
    t.lowestFree = u.lowestFree := by
  refine lowestFree_eq_iff.mpr ⟨?_, fun k hk => ?_⟩
  · rw [h, lookup_lowestFree]
  · rw [h]
    exact lookup_ne_none_of_lt hk

/-- A new entry goes to the lowest free slot, as POSIX says of descriptors, and moves no
other one. -/
theorem lookup_alloc (t : Slots α) (a : α) (k : Nat) :
    (t.alloc a).lookup k = if k = t.lowestFree then some a else t.lookup k := by
  unfold alloc
  split
  case isTrue h =>
    rw [lookup, lookup, List.getElem?_set]
    by_cases hk : k = t.lowestFree
    · subst hk
      rw [if_pos rfl, if_pos rfl, if_pos h]
      rfl
    · rw [if_neg (Ne.symm hk), if_neg hk]
  case isFalse h =>
    have hlen : t.lowestFree = t.length :=
      Nat.le_antisymm t.lowestFree_le_length (Nat.le_of_not_lt h)
    rw [hlen, lookup, lookup, List.getElem?_append]
    split
    case isTrue hk => rw [if_neg (Nat.ne_of_lt hk)]
    case isFalse hk =>
      rw [List.getElem?_eq_none (Nat.le_of_not_lt hk)]
      by_cases heq : k = t.length
      · rw [if_pos heq, heq, Nat.sub_self]
        rfl
      · rw [if_neg heq, List.getElem?_eq_none (by simp only [List.length_singleton]; omega)]

/-- Freeing what was just allocated restores the table. -/
theorem lookup_clear_alloc (t : Slots α) (a : α) (k : Nat) :
    ((t.alloc a).clear t.lowestFree).lookup k = t.lookup k := by
  rw [lookup_clear, lookup_alloc]
  split
  case isTrue hk => rw [hk, t.lookup_lowestFree]
  case isFalse => rfl

end Slots

end Lib
