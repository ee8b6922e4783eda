import LomiriApi.Lib.Run

/-!
# Simulation of whole runs

Two labelled step functions and a relation between their states. A step of the one
system with the label `b` is matched by the steps `g b` of the other, of which there
may be none; then so is a run. Where also what is impossible is impossible in both systems,
the runs agree.
-/

namespace Lib

universe u₁ u₂ v₁ v₂

variable {σ : Type u₁} {τ : Type u₂} {α : Type v₁} {β : Type v₂}

/-- **What matches a step matches a run.** `C` is what is required of the labels. -/
theorem run_simulates {step : σ → α → Option σ} {step' : τ → β → Option τ} {R : τ → σ → Prop}
    {C : β → Prop} {g : β → List α}
    (hstep : ∀ t t' s b, C b → R t s → step' t b = some t' →
      ∃ s', run step s (g b) = some s' ∧ R t' s')
    {t t' : τ} {s : σ} {bs : List β} (hC : ∀ b ∈ bs, C b) (h : R t s)
    (hrun : run step' t bs = some t') :
    ∃ s', run step s (bs.flatMap g) = some s' ∧ R t' s' := by
  induction bs generalizing t s with
  | nil =>
    obtain rfl := Option.some.inj hrun
    exact ⟨s, rfl, h⟩
  | cons b bs ih =>
    obtain ⟨t₁, ht₁, hrest⟩ := run_cons_eq_some.mp hrun
    obtain ⟨s₁, hs₁, h₁⟩ := hstep t t₁ s b (hC b List.mem_cons_self) h ht₁
    obtain ⟨s', hs', h'⟩ := ih (fun c hc => hC c (List.mem_cons_of_mem b hc)) h₁ hrest
    refine ⟨s', ?_, h'⟩
    rw [List.flatMap_cons, run_append, hs₁]
    exact hs'

/-- The rule for a step that is matched by exactly one step. -/
theorem run_simulates_map {step : σ → α → Option σ} {step' : τ → β → Option τ}
    {R : τ → σ → Prop} {C : β → Prop} {g : β → α}
    (hstep : ∀ t t' s b, C b → R t s → step' t b = some t' →
      ∃ s', step s (g b) = some s' ∧ R t' s')
    {t t' : τ} {s : σ} {bs : List β} (hC : ∀ b ∈ bs, C b) (h : R t s)
    (hrun : run step' t bs = some t') :
    ∃ s', run step s (bs.map g) = some s' ∧ R t' s' := by
  have hone : ∀ t t' s b, C b → R t s → step' t b = some t' →
      ∃ s', run step s [g b] = some s' ∧ R t' s' := by
    intro t t' s b hb hR ht'
    obtain ⟨s', hs', hR'⟩ := hstep t t' s b hb hR ht'
    exact ⟨s', run_cons_some hs' [], hR'⟩
  have hrun' := run_simulates hone hC h hrun
  rwa [← List.map_eq_flatMap] at hrun'

/-- **Steps that agree make runs that agree**: both are possible, and lead to related
states, or neither is. -/
theorem run_agrees {step : σ → α → Option σ} {step' : τ → α → Option τ} {R : σ → τ → Prop}
    {C : α → Prop}
    (hstep : ∀ s t a, C a → R s t → Option.Rel R (step s a) (step' t a))
    {s : σ} {t : τ} {as : List α} (hC : ∀ a ∈ as, C a) (h : R s t) :
    Option.Rel R (run step s as) (run step' t as) := by
  induction as generalizing s t with
  | nil => exact .some h
  | cons a as ih =>
    have hone := hstep s t a (hC a List.mem_cons_self) h
    have hrest : ∀ b ∈ as, C b := fun b hb => hC b (List.mem_cons_of_mem a hb)
    rw [run_cons, run_cons]
    cases hs : step s a with
    | none =>
      cases ht : step' t a with
      | none => exact .none
      | some t' =>
        rw [hs, ht] at hone
        cases hone
    | some s' =>
      cases ht : step' t a with
      | none =>
        rw [hs, ht] at hone
        cases hone
      | some t' =>
        rw [hs, ht] at hone
        cases hone with
        | some h' => exact ih hrest h'

/-- A run of a system whose steps are all possible. -/
theorem run_total (f : τ → β → τ) (t : τ) (bs : List β) :
    run (fun t b => some (f t b)) t bs = some (bs.foldl f t) := by
  induction bs generalizing t with
  | nil => rfl
  | cons b bs ih => exact ih (f t b)

end Lib
