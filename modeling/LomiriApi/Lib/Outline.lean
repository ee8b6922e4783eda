import Mathlib.Data.List.TakeWhile
import Mathlib.Data.List.Infix

/-!
# Outlines

An outline is a list of headings, each with an outline of its own below it. Written
down, it is a list of lines, each with its depth, and with a margin in front of it
that shows the depth.

- `Outline.lines`: the lines, in pre-order.
- `Outline.lines_inj`: the lines determine the outline.
- `margin_append_inj`: a line determines its depth and its heading, if the heading does
  not begin like the margin.
-/

namespace Lib

universe u

variable {α : Type u}

/-- A list of headings, each with what is below it. -/
inductive Outline (α : Type u) where
  | nil
  | cons (heading : α) (below next : Outline α)
deriving DecidableEq, Repr

namespace Outline

/-- The headings in pre-order, with their depths. -/
def lines : Outline α → Nat → List (Nat × α)
  | nil, _ => []
  | cons heading below next, d => (d, heading) :: (below.lines (d + 1) ++ next.lines d)

/-- The first heading. -/
def heading? : Outline α → Option α
  | nil => none
  | cons heading _ _ => some heading

theorem le_depth (o : Outline α) (d : Nat) : ∀ l ∈ o.lines d, d ≤ l.1 := by
  induction o generalizing d with
  | nil => exact fun l hl => (List.not_mem_nil hl).elim
  | cons heading below next ihb ihn =>
    intro l hl
    rcases List.mem_cons.mp hl with rfl | hl
    · exact Nat.le_refl d
    · rcases List.mem_append.mp hl with hl | hl
      · exact Nat.le_of_succ_le (ihb (d + 1) l hl)
      · exact ihn d l hl

/-- What is deeper than a heading is all below it: there it ends. -/
theorem takeWhile_below (below next : Outline α) (d : Nat) :
    (below.lines (d + 1) ++ next.lines d).takeWhile (fun l => decide (d < l.1))
      = below.lines (d + 1) := by
  have hdeep : ∀ l ∈ below.lines (d + 1), decide (d < l.1) = true :=
    fun l hl => decide_eq_true (below.le_depth (d + 1) l hl)
  rw [List.takeWhile_append_of_pos hdeep]
  cases next with
  | nil => exact List.append_nil _
  | cons heading below' next' =>
    rw [lines, List.takeWhile_cons_of_neg (by simp), List.append_nil]

/-- **The lines determine the outline.** -/
theorem lines_inj {o o' : Outline α} {d : Nat} (h : o.lines d = o'.lines d) : o = o' := by
  induction o generalizing o' d with
  | nil =>
    cases o' with
    | nil => rfl
    | cons heading below next => cases h
  | cons heading below next ihb ihn =>
    cases o' with
    | nil => cases h
    | cons heading' below' next' =>
      obtain ⟨hhead, htail⟩ := List.cons.inj h
      have hbelow : below.lines (d + 1) = below'.lines (d + 1) := by
        rw [← takeWhile_below below next d, ← takeWhile_below below' next' d, htail]
      rw [hbelow] at htail
      obtain rfl : heading = heading' := congrArg Prod.snd hhead
      obtain rfl := ihb hbelow
      obtain rfl := ihn (List.append_cancel_left htail)
      rfl

/-- An outline written at one depth begins there. -/
theorem depth_inj {o o' : Outline α} {d d' : Nat} (hne : o ≠ nil)
    (h : o.lines d = o'.lines d') : d = d' := by
  cases o with
  | nil => exact absurd rfl hne
  | cons heading below next =>
    cases o' with
    | nil => cases h
    | cons heading' below' next' => exact congrArg Prod.fst (List.cons.inj h).1

end Outline

/-- The line after its margin: if neither heading begins with `m`, both the depth and the
heading can be read off. -/
theorem margin_append_inj {m : List α} {i j : Nat} {x y : List α} (hx : ¬ m <+: x)
    (hy : ¬ m <+: y)
    (h : (List.replicate i m).flatten ++ x = (List.replicate j m).flatten ++ y) :
    i = j ∧ x = y := by
  induction i generalizing j with
  | zero =>
    cases j with
    | zero => exact ⟨rfl, h⟩
    | succ j =>
      refine absurd ⟨(List.replicate j m).flatten ++ y, ?_⟩ hx
      rw [List.replicate_succ, List.flatten_cons, List.append_assoc] at h
      exact h.symm
  | succ i ih =>
    rw [List.replicate_succ, List.flatten_cons, List.append_assoc] at h
    cases j with
    | zero => exact absurd ⟨_, h⟩ hy
    | succ j =>
      rw [List.replicate_succ, List.flatten_cons, List.append_assoc] at h
      obtain ⟨rfl, hxy⟩ := ih (List.append_cancel_left h)
      exact ⟨rfl, hxy⟩

end Lib
