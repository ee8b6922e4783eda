import Mathlib.Data.List.Infix

/-!
# Runs of a labelled step function

A system is a partial step function `step : σ → α → Option σ` over states `σ`
and labels `α`; a step that is not possible is `none`.

- `run step s as`: the state after taking the steps `as` from `s`.
- `Leads step P s t`: a run from `s` to `t` that takes steps with `P` only.
- `Always step P s as`: `P` holds of every state the run passes through.
- `Meets step C s as`: every step the run takes satisfies the condition `C`
  (a condition on the state before the step and on its label).
- `run_invariant`, `always_of_meets`: what one step preserves, a run preserves.
- `always_iff_meets`: the rule for a property that a system keeps *exactly*
  when its steps meet a condition.
-/

namespace Lib

universe u v

variable {σ : Type u} {α : Type v} {step : σ → α → Option σ}

/-- The state after the steps `as` from `s`, if all of them are possible. -/
def run (step : σ → α → Option σ) : σ → List α → Option σ
  | s, [] => some s
  | s, a :: as => (step s a).bind fun t => run step t as

/-- A run from `s` to `t` takes steps with `P` only. -/
def Leads (step : σ → α → Option σ) (P : α → Prop) (s t : σ) : Prop :=
  ∃ as, (∀ a ∈ as, P a) ∧ run step s as = some t

/-- `P` holds of every state that a prefix of the run reaches. -/
def Always (step : σ → α → Option σ) (P : σ → Prop) (s : σ) (as : List α) : Prop :=
  ∀ pre, pre <+: as → ∀ t, run step s pre = some t → P t

/-- Every step that the run takes meets the condition `C`. -/
def Meets (step : σ → α → Option σ) (C : σ → α → Prop) (s : σ) (as : List α) : Prop :=
  ∀ pre a, pre ++ [a] <+: as → ∀ t t', run step s pre = some t → step t a = some t' → C t a

/-! ## Computation rules -/

@[simp] theorem run_cons (s : σ) (a : α) (as : List α) :
    run step s (a :: as) = (step s a).bind fun t => run step t as := rfl

/-- A step that is possible is taken off the front. -/
theorem run_cons_some {s t : σ} {a : α} (h : step s a = some t) (as : List α) :
    run step s (a :: as) = run step t as := by
  rw [run_cons, h]
  rfl

/-- A run that comes to its end has taken its first step; inductions over runs begin with
this. -/
theorem run_cons_eq_some {s u : σ} {a : α} {as : List α} :
    run step s (a :: as) = some u ↔ ∃ t, step s a = some t ∧ run step t as = some u := by
  rw [run_cons, Option.bind_eq_some_iff]

/-- A run may be cut anywhere. -/
theorem run_append (s : σ) (as bs : List α) :
    run step s (as ++ bs) = (run step s as).bind fun t => run step t bs := by
  induction as generalizing s with
  | nil => rfl
  | cons a as ih =>
    rw [List.cons_append, run_cons, run_cons]
    cases step s a with
    | none => rfl
    | some t => exact ih t

/-! ## Runs of certain steps -/

section Leads

variable {P : α → Prop} {s t u : σ}

theorem Leads.refl (s : σ) : Leads step P s s := ⟨[], nofun, rfl⟩

/-- Runs of certain steps compose like paths: a step may be put in front. -/
theorem Leads.head {a : α} (ha : P a) (hstep : step s a = some u) (h : Leads step P u t) :
    Leads step P s t := by
  obtain ⟨as, has, hrun⟩ := h
  exact ⟨a :: as, List.forall_mem_cons.mpr ⟨ha, has⟩, (run_cons_some hstep as).trans hrun⟩

theorem Leads.single {a : α} (ha : P a) (hstep : step s a = some t) : Leads step P s t :=
  (Leads.refl t).head ha hstep

/-- And one run may follow another. -/
theorem Leads.trans (h : Leads step P s u) (h' : Leads step P u t) : Leads step P s t := by
  obtain ⟨as, has, hrun⟩ := h
  obtain ⟨bs, hbs, hrun'⟩ := h'
  refine ⟨as ++ bs, fun a ha => (List.mem_append.mp ha).elim (has a) (hbs a), ?_⟩
  rw [run_append, hrun]
  exact hrun'

/-- What every step with `P` preserves. -/
theorem Leads.invariant {I : σ → Prop}
    (hstep : ∀ s a t, P a → I s → step s a = some t → I t) (h : Leads step P s t) (hs : I s) :
    I t := by
  obtain ⟨as, has, hrun⟩ := h
  induction as generalizing s with
  | nil => exact Option.some.inj hrun ▸ hs
  | cons a as ih =>
    obtain ⟨u, hu, hrest⟩ := run_cons_eq_some.mp hrun
    rw [List.forall_mem_cons] at has
    exact ih (hstep s a u has.1 hs hu) has.2 hrest

end Leads

/-! ## Invariants -/

/-- A run preserves what every step preserves. This is the induction over runs: elsewhere
only single steps are looked at. -/
theorem run_invariant {I : σ → Prop} (hstep : ∀ s a t, I s → step s a = some t → I t)
    {s t : σ} {as : List α} (hs : I s) (h : run step s as = some t) : I t := by
  induction as generalizing s with
  | nil => exact Option.some.inj h ▸ hs
  | cons a as ih =>
    obtain ⟨u, hu, hrun⟩ := run_cons_eq_some.mp h
    exact ih (hstep s a u hs hu) hrun

/-- What always holds may be weakened. -/
theorem Always.mono {P Q : σ → Prop} (h : ∀ s, P s → Q s) {s : σ} {as : List α}
    (hP : Always step P s as) : Always step Q s as :=
  fun pre hpre t ht => h t (hP pre hpre t ht)

/-- `P` always holds if it holds at the start, and along the run that follows the first
step. Where that step is impossible the run ends. -/
theorem always_cons {P : σ → Prop} {s : σ} {a : α} {as : List α} :
    Always step P s (a :: as) ↔ P s ∧ ∀ t, step s a = some t → Always step P t as := by
  constructor
  · intro h
    refine ⟨h [] (List.nil_prefix) s rfl, fun t ht pre hpre u hu => ?_⟩
    exact h (a :: pre) (List.cons_prefix_cons.mpr ⟨rfl, hpre⟩) u
      ((run_cons_some ht pre).trans hu)
  · rintro ⟨hs, h⟩ pre hpre u hu
    cases pre with
    | nil => exact Option.some.inj hu ▸ hs
    | cons b pre =>
      obtain ⟨rfl, hpre'⟩ := List.cons_prefix_cons.mp hpre
      obtain ⟨t, ht, hrun⟩ := run_cons_eq_some.mp hu
      exact h t ht pre hpre' u hrun

/-- The run without steps meets every condition. -/
theorem meets_nil {C : σ → α → Prop} (s : σ) : Meets step C s [] := by
  intro pre a h
  exact absurd (List.prefix_nil.mp h) (by simp)

/-- A run meets a condition if its first step does (provided that it is taken), and then
the rest. -/
theorem meets_cons {C : σ → α → Prop} {s : σ} {a : α} {as : List α} :
    Meets step C s (a :: as) ↔ ∀ t, step s a = some t → C s a ∧ Meets step C t as := by
  constructor
  · intro h t ht
    refine ⟨h [] a (by simp) s t rfl ht, fun pre b hpre u u' hu hu' => ?_⟩
    exact h (a :: pre) b (List.cons_prefix_cons.mpr ⟨rfl, hpre⟩) u u'
      ((run_cons_some ht pre).trans hu) hu'
  · intro h pre b hpre u u' hu hu'
    cases pre with
    | nil =>
      obtain ⟨rfl, -⟩ := List.cons_prefix_cons.mp hpre
      obtain rfl := Option.some.inj hu
      exact (h u' hu').1
    | cons c pre =>
      obtain ⟨rfl, hpre'⟩ := List.cons_prefix_cons.mp hpre
      obtain ⟨t, ht, hrun⟩ := run_cons_eq_some.mp hu
      exact (h t ht).2 pre b hpre' u u' hrun hu'

/-- Whether a run meets a condition can be found out by taking its steps, so a concrete run
is checked by `decide`. -/
instance decidableMeets {C : σ → α → Prop} [∀ s a, Decidable (C s a)] :
    ∀ (s : σ) (as : List α), Decidable (Meets step C s as)
  | s, [] => .isTrue (meets_nil s)
  | s, a :: as =>
    match h : step s a with
    | none => .isTrue (meets_cons.mpr fun t ht => by rw [h] at ht; cases ht)
    | some u =>
      have := decidableMeets (C := C) u as
      decidable_of_iff (C s a ∧ Meets step C u as) <| by
        rw [meets_cons, h]
        exact ⟨fun hu t ht => Option.some.inj ht ▸ hu, fun hall => hall u rfl⟩

/-- Along a run whose steps meet `C`, an invariant that such steps preserve holds of every
state: the induction over runs once more, with a condition on the steps. -/
theorem always_of_meets {I : σ → Prop} {C : σ → α → Prop}
    (hstep : ∀ s a t, I s → step s a = some t → C s a → I t)
    {s : σ} {as : List α} (hs : I s) (hC : Meets step C s as) : Always step I s as := by
  induction as generalizing s with
  | nil =>
    intro pre hpre t ht
    obtain rfl := List.prefix_nil.mp hpre
    exact Option.some.inj ht ▸ hs
  | cons a as ih =>
    refine always_cons.mpr ⟨hs, fun t ht => ?_⟩
    obtain ⟨hCa, hCas⟩ := meets_cons.mp hC t ht
    exact ih (hstep s a t hs ht hCa) hCas

/-- **Exactness of a step condition.** `I` is an invariant of the steps that
meet `C` and implies `P`; a step that does not meet `C` leads out of `P`. Then a
run stays inside `P` exactly when all its steps meet `C`. -/
theorem always_iff_meets {I P : σ → Prop} {C : σ → α → Prop}
    (hstep : ∀ s a t, I s → step s a = some t → C s a → I t)
    (hP : ∀ s, I s → P s)
    (hC : ∀ s a t, I s → step s a = some t → P t → C s a)
    {s : σ} {as : List α} (hs : I s) : Always step P s as ↔ Meets step C s as := by
  constructor
  · intro h
    induction as generalizing s with
    | nil => exact meets_nil s
    | cons a as ih =>
      refine meets_cons.mpr fun t ht => ?_
      have hrest : Always step P t as := (always_cons.mp h).2 t ht
      have hCa : C s a := hC s a t hs ht (hrest [] List.nil_prefix t rfl)
      exact ⟨hCa, ih (hstep s a t hs ht hCa) hrest⟩
  · intro h
    exact (always_of_meets hstep hs h).mono hP

end Lib
