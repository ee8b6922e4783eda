import Mathlib.Algebra.BigOperators.Group.List.Basic
import Mathlib.Tactic.Abel

/-!
# Ledgers: what a list of slots holds in total

A ledger is a list of slots, each of which holds something that a weight
`w : α → M` measures in a commutative monoid (a number of references, a multiset
of tokens). `total w l` is what all the slots hold together; the lemmas say how
the total moves when one slot is added or overwritten. A conservation law is then
an equation between totals that every step of a system preserves.
-/

namespace Lib

universe u v

variable {α : Type u} {M : Type v} [AddCommMonoid M]

/-- What the slots hold together. -/
def total (w : α → M) (l : List α) : M := (l.map w).sum

@[simp] theorem total_nil (w : α → M) : total w [] = 0 := rfl

@[simp] theorem total_cons (w : α → M) (a : α) (l : List α) :
    total w (a :: l) = w a + total w l := by
  simp [total]

/-- Entries may be counted piece by piece. -/
@[simp] theorem total_append (w : α → M) (l₁ l₂ : List α) :
    total w (l₁ ++ l₂) = total w l₁ + total w l₂ := by
  simp [total]

/-- Overwriting a slot exchanges its old weight for its new one. -/
theorem total_set (w : α → M) {l : List α} {i : Nat} {a : α} (h : l[i]? = some a) (b : α) :
    total w (l.set i b) + w a = total w l + w b := by
  induction l generalizing i with
  | nil => cases h
  | cons c l ih =>
    cases i with
    | zero =>
      obtain rfl : c = a := by simpa using h
      rw [List.set_cons_zero, total_cons, total_cons]
      abel
    | succ i =>
      have ih := ih (i := i) (by simpa using h)
      rw [List.set_cons_succ, total_cons, total_cons, add_assoc, ih, add_assoc]

/-- A slot's weight is part of the total. -/
theorem total_eq_add_of_mem (w : α → M) {l : List α} {a : α} (h : a ∈ l) :
    ∃ rest, total w l = w a + rest := by
  obtain ⟨l₁, l₂, rfl⟩ := List.append_of_mem h
  refine ⟨total w l₁ + total w l₂, ?_⟩
  rw [total_append, total_cons]
  abel

end Lib
