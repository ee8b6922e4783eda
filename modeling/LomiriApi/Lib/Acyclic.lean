import Mathlib.Data.Fintype.Card
import Mathlib.Logic.Relation

/-!
# Acyclic graphs that grow

A graph is its edge relation `r`. `Acyclic r` says that no vertex reaches itself.

- `Acyclic.insert_source`: a new vertex that nothing points to keeps a graph
  acyclic.
- `Acyclic.insert_edge`, `Acyclic.not_reaches`: an edge from `e` to `p` keeps it
  acyclic exactly when `p` does not reach `e`.
- `Acyclic.wellFounded`: on finitely many vertices the edges of an acyclic graph can
  be followed only finitely often.
-/

namespace Lib

open Relation

universe u

variable {α : Type u} {r r' : α → α → Prop}

/-- No vertex reaches itself. -/
def Acyclic (r : α → α → Prop) : Prop := ∀ a, ¬ TransGen r a a

/-- Removing edges closes no loop. -/
theorem Acyclic.mono (hr : Acyclic r) (h : ∀ a b, r' a b → r a b) : Acyclic r' :=
  fun a ha => hr a (TransGen.mono h a a ha)

/-- New edges from `v` are harmless if nothing leads to `v`: an object that was just
created. -/
theorem Acyclic.insert_source {v : α} (hr : Acyclic r) (hedge : ∀ a b, r' a b → r a b ∨ a = v)
    (hv : ∀ a, ¬ r' a v) : Acyclic r' := by
  -- a path that does not start at `v` never comes to it
  have hold : ∀ {a b}, TransGen r' a b → a ≠ v → TransGen r a b := by
    intro a b hab ha
    induction hab with
    | single hab => exact .single ((hedge _ _ hab).resolve_right ha)
    | @tail b c _ hbc ih =>
      have hb : b ≠ v := by
        rintro rfl
        obtain ⟨d, -, hd⟩ := TransGen.tail'_iff.mp ‹TransGen r' a b›
        exact hv d hd
      exact ih.tail ((hedge _ _ hbc).resolve_right hb)
  intro a ha
  by_cases hav : a = v
  · subst hav
    obtain ⟨d, -, hd⟩ := TransGen.tail'_iff.mp ha
    exact hv d hd
  · exact hr a (hold ha hav)

/-- A path with the new edge is an old path, or it goes through the edge. -/
theorem transGen_insert_edge {e p : α} (hedge : ∀ a b, r' a b → r a b ∨ a = e ∧ b = p) {a b : α}
    (hab : TransGen r' a b) :
    TransGen r a b ∨ ReflTransGen r a e ∧ ReflTransGen r p b := by
  induction hab with
  | single hab =>
    rcases hedge _ _ hab with h | ⟨rfl, rfl⟩
    · exact .inl (.single h)
    · exact .inr ⟨.refl, .refl⟩
  | tail _ hbc ih =>
    rcases hedge _ _ hbc with h | ⟨rfl, rfl⟩
    · rcases ih with ih | ⟨hae, hpb⟩
      · exact .inl (ih.tail h)
      · exact .inr ⟨hae, hpb.tail h⟩
    · rcases ih with ih | ⟨hae, -⟩
      · exact .inr ⟨ih.to_reflTransGen, .refl⟩
      · exact .inr ⟨hae, .refl⟩

/-- One new edge `e → p` closes a loop only if `p` already leads to `e`. -/
theorem Acyclic.insert_edge {e p : α} (hr : Acyclic r)
    (hedge : ∀ a b, r' a b → r a b ∨ a = e ∧ b = p) (hpe : ¬ ReflTransGen r p e) :
    Acyclic r' := by
  intro a ha
  rcases transGen_insert_edge hedge ha with h | ⟨hae, hpa⟩
  · exact hr a h
  · exact hpe (hpa.trans hae)

/-- In an acyclic graph with an edge from `e` to `p`, no path leads from `p` to `e`,
whatever the edges out of `e` were before. -/
theorem Acyclic.not_reaches {e p : α} (hr : Acyclic r') (hedge : ∀ a b, a ≠ e → r a b → r' a b)
    (hep : r' e p) : ¬ ReflTransGen r p e := by
  have hnew : ∀ {q}, ReflTransGen r q e → ReflTransGen r' q e := by
    intro q hq
    induction hq using ReflTransGen.head_induction_on with
    | refl => exact .refl
    | @head a b hab _ ih =>
      by_cases hae : a = e
      · rw [hae]
      · exact ih.head (hedge a b hae hab)
  exact fun hpe => hr e (TransGen.head' hep (hnew hpe))

/-- On finitely many elements a relation without loops is well-founded, so it can be
followed by recursion. That is where finiteness comes in: an infinite descent need not
repeat anything. -/
theorem Acyclic.wellFounded {s : Set α} (hs : s.Finite) (hr : Acyclic r)
    (hedge : ∀ a b, r a b → a ∈ s ∧ b ∈ s) : WellFounded (flip r) := by
  have : Finite s := hs
  let below : s → s → Prop := fun b a => TransGen r a b
  have htrans : IsTrans s below := ⟨fun _ _ _ hab hbc => TransGen.trans hbc hab⟩
  have hirrefl : Std.Irrefl below := ⟨fun a => hr a⟩
  have hwf : WellFounded below := Finite.wellFounded_of_trans_of_irrefl below
  have hin : ∀ a : s, Acc (flip r) a := by
    intro a
    induction a using hwf.induction with
    | _ a ih => exact Acc.intro _ fun b hab => ih ⟨b, (hedge _ _ hab).2⟩ (.single hab)
  exact ⟨fun a => Acc.intro a fun b hab => hin ⟨b, (hedge _ _ hab).2⟩⟩

end Lib
