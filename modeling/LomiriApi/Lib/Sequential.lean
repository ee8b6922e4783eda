import LomiriApi.Lib.Linearize

/-!
# One call after the other

A run of the atomic system gives a list of calls with their answers, in the order in
which they take effect. Executed one after the other, they come to the same cells and to
the same answers, and for each thread they are its calls in its own order.

- `seqStep`: one call of such a list, with the answer it is to have.
- `Atomic.takes`: the list, for a run of the atomic system.
- `Event.answered`, `Status.pending`: what has been answered, and what is still to be.
- `InRealTime`: a call that has returned before another one begins comes first.
- `sequential_calls`: a run of the threads that ends with no call in progress comes to the
  same cells and the same answers as one call after the other, in real time.
-/

namespace Lib

namespace Locks

variable {τ μ κ ρ : Type}

/-- One call in one piece; it must have the answer that the list says. Answers are part of
the list so that a sequence can be compared with what the clients saw. -/
def seqStep [DecidableEq ρ] (spec : κ → μ → μ × ρ) (m : μ) (e : τ × κ × ρ) : Option μ :=
  if (spec e.2.1 m).2 = e.2.2 then some (spec e.2.1 m).1 else none

/-- The call that is answered. -/
def Event.answered : Event τ κ ρ → Option (τ × κ × ρ)
  | .call _ _ => none
  | .answer t c r => some (t, c, r)

/-- The call of thread `t` that has taken effect and is not answered yet. It is in the
sequence already, and not yet in what has been answered. -/
def Status.pending (t : τ) : Status κ ρ → List (τ × κ × ρ)
  | .done c r => [(t, c, r)]
  | _ => []

theorem filterMap_event_cons (q : Point τ κ ρ) (qs : List (Point τ κ ρ)) :
    (q :: qs).filterMap Point.event = q.event.toList ++ qs.filterMap Point.event := by
  rw [List.filterMap_cons]
  cases q.event <;> rfl

variable [DecidableEq τ]

/-- The calls of thread `t`. -/
def ofThread (t : τ) (es : List (τ × κ × ρ)) : List (τ × κ × ρ) := es.filter fun e => e.1 = t

/-- The answered calls of thread `t`. -/
def answersOf (t : τ) (es : List (Event τ κ ρ)) : List (τ × κ × ρ) :=
  ofThread t (es.filterMap Event.answered)

theorem ofThread_cons_self (t : τ) (c : κ) (r : ρ) (es : List (τ × κ × ρ)) :
    ofThread t ((t, c, r) :: es) = (t, c, r) :: ofThread t es := by
  simp [ofThread]

theorem ofThread_cons_ne {t u : τ} (h : u ≠ t) (c : κ) (r : ρ) (es : List (τ × κ × ρ)) :
    ofThread u ((t, c, r) :: es) = ofThread u es := by
  simp [ofThread, Ne.symm h]

/-- A call of the sequence is one that has been answered. -/
theorem answered_of_mem {cs : List (τ × κ × ρ)} {es : List (Event τ κ ρ)}
    (h : ∀ t, ofThread t cs = answersOf t es) {t : τ} {c : κ} {r : ρ} (hmem : (t, c, r) ∈ cs) :
    .answer t c r ∈ es := by
  have hown : (t, c, r) ∈ ofThread t cs := List.mem_filter.mpr ⟨hmem, decide_eq_true rfl⟩
  rw [h t] at hown
  obtain ⟨e, he, hanswer⟩ := List.mem_filterMap.mp (List.mem_filter.mp hown).1
  cases e with
  | call u d => cases hanswer
  | answer u d q =>
    obtain ⟨rfl, hrest⟩ := Prod.mk.inj (Option.some.inj hanswer)
    obtain ⟨rfl, rfl⟩ := Prod.mk.inj hrest
    exact he

theorem answersOf_append (t : τ) (es es' : List (Event τ κ ρ)) :
    answersOf t (es ++ es') = answersOf t es ++ answersOf t es' := by
  simp only [answersOf, ofThread, List.filterMap_append, List.filter_append]

/-- The history begins a call of thread `t`. -/
def Event.isCallOf (t : τ) : Event τ κ ρ → Bool
  | .call u _ => decide (u = t)
  | .answer _ _ _ => false

/-- How many calls thread `t` has begun. -/
def callsOf (t : τ) (es : List (Event τ κ ρ)) : Nat := es.countP (Event.isCallOf t)

/-- The order `cs` respects real time: wherever the history is cut, the calls that are
answered before the cut come first, and those that begin after the cut come later. Calls
that overlap may come in either order. -/
def InRealTime (es : List (Event τ κ ρ)) (cs : List (τ × κ × ρ)) : Prop :=
  ∀ pre post, es = pre ++ post → ∃ cs₁ cs₂, cs = cs₁ ++ cs₂ ∧
    ∀ t, answersOf t pre <+: ofThread t cs₁ ∧ (ofThread t cs₁).length ≤ callsOf t pre

/-- How many calls of the thread have begun and not taken effect. -/
def Status.waiting : Status κ ρ → Nat
  | .called _ => 1
  | _ => 0

section Status

variable (a : Atomic τ μ κ ρ) (t : τ) (v : Status κ ρ)

theorem Atomic.go_status_self : (a.go t v).status t = v := by simp [Atomic.go]

theorem Atomic.go_status_ne {u : τ} (h : u ≠ t) : (a.go t v).status u = a.status u := by
  simp [Atomic.go, h]

end Status

/-! ## What takes effect -/

/-- The call that takes effect at a move, with its answer. There is one at a commit and
none at any other move. -/
def Atomic.effect (spec : κ → μ → μ × ρ) (a : Atomic τ μ κ ρ) : Point τ κ ρ → List (τ × κ × ρ)
  | .commit t =>
    match a.status t with
    | .called c => [(t, c, (spec c a.mem).2)]
    | _ => []
  | _ => []

variable [DecidableEq κ] [DecidableEq ρ]

/-- The calls of a run, in the order in which they take effect. This is the sequence that
the theorems promise. -/
def Atomic.takes (spec : κ → μ → μ × ρ) (a : Atomic τ μ κ ρ) :
    List (Point τ κ ρ) → List (τ × κ × ρ)
  | [] => []
  | q :: qs =>
    a.effect spec q ++
      match Atomic.step spec a q with
      | some b => b.takes spec qs
      | none => []

section Takes

variable {spec : κ → μ → μ × ρ} {a b a' : Atomic τ μ κ ρ} {q : Point τ κ ρ}
  {qs qs' : List (Point τ κ ρ)}

theorem Atomic.takes_cons (h : Atomic.step spec a q = some b) (qs : List (Point τ κ ρ)) :
    a.takes spec (q :: qs) = a.effect spec q ++ b.takes spec qs := by
  simp only [takes, h]

theorem Atomic.takes_append (h : run (Atomic.step spec) a qs = some b)
    (qs' : List (Point τ κ ρ)) :
    a.takes spec (qs ++ qs') = a.takes spec qs ++ b.takes spec qs' := by
  induction qs generalizing a with
  | nil =>
    obtain rfl := Option.some.inj h
    rfl
  | cons q qs ih =>
    obtain ⟨c, hc, hrest⟩ := run_cons_eq_some.mp h
    rw [List.cons_append, takes_cons hc, takes_cons hc, ih hrest, List.append_assoc]

/-- **One move.** What takes effect is executed, and is what the thread has still to
answer. So executed and answered calls differ by the pending ones. -/
theorem effect_step (h : Atomic.step spec a q = some b) :
    run (seqStep spec) a.mem (a.effect spec q) = some b.mem ∧
      ∀ t, (a.status t).pending t ++ ofThread t (a.effect spec q)
        = answersOf t q.event.toList ++ (b.status t).pending t := by
  cases q with
  | invoke u c =>
    obtain ⟨hidle, rfl⟩ := Atomic.step_invoke.mp h
    refine ⟨rfl, fun t => ?_⟩
    by_cases ht : t = u
    · rw [ht, hidle, Atomic.go_status_self]
      rfl
    · rw [Atomic.go_status_ne _ _ _ ht]
      exact List.append_nil _
  | commit u =>
    obtain ⟨c, hcalled, rfl⟩ := Atomic.step_commit.mp h
    have heffect : a.effect spec (.commit u) = [(u, c, (spec c a.mem).2)] := by
      rw [Atomic.effect, hcalled]
    have hseq : seqStep spec a.mem (u, c, (spec c a.mem).2) = some (spec c a.mem).1 := if_pos rfl
    rw [heffect]
    refine ⟨run_cons_some hseq [], fun t => ?_⟩
    by_cases ht : t = u
    · rw [ht, hcalled, Atomic.go_status_self, ofThread_cons_self]
      rfl
    · rw [Atomic.go_status_ne _ _ _ ht, ofThread_cons_ne ht]
      exact List.append_nil _
  | respond u c r =>
    obtain ⟨hdone, rfl⟩ := Atomic.step_respond.mp h
    refine ⟨rfl, fun t => ?_⟩
    show _ ++ [] = ofThread t [(u, c, r)] ++ _
    by_cases ht : t = u
    · rw [ht, hdone, Atomic.go_status_self, ofThread_cons_self]
      rfl
    · rw [Atomic.go_status_ne _ _ _ ht, ofThread_cons_ne ht]
      exact List.append_nil _

/-- **One call after the other.** A run of the atomic system is a sequence of calls. -/
theorem sequential (hrun : run (Atomic.step spec) a qs = some a') :
    run (seqStep spec) a.mem (a.takes spec qs) = some a'.mem ∧
      ∀ t, (a.status t).pending t ++ ofThread t (a.takes spec qs)
        = answersOf t (qs.filterMap Point.event) ++ (a'.status t).pending t := by
  induction qs generalizing a with
  | nil =>
    obtain rfl := Option.some.inj hrun
    refine ⟨rfl, fun t => ?_⟩
    show (a.status t).pending t ++ [] = [] ++ (a.status t).pending t
    rw [List.append_nil, List.nil_append]
  | cons q qs ih =>
    obtain ⟨b, hb, hrest⟩ := run_cons_eq_some.mp hrun
    obtain ⟨hmem, hpending⟩ := effect_step hb
    obtain ⟨hmem', hpending'⟩ := ih hrest
    rw [Atomic.takes_cons hb]
    refine ⟨by rw [run_append, hmem]; exact hmem', fun t => ?_⟩
    calc (a.status t).pending t ++ ofThread t (a.effect spec q ++ b.takes spec qs)
        = (a.status t).pending t ++ ofThread t (a.effect spec q)
          ++ ofThread t (b.takes spec qs) := by
          rw [ofThread, List.filter_append, ← List.append_assoc]
          rfl
      _ = answersOf t q.event.toList
          ++ ((b.status t).pending t ++ ofThread t (b.takes spec qs)) := by
          rw [hpending t, List.append_assoc]
      _ = answersOf t ((q :: qs).filterMap Point.event) ++ (a'.status t).pending t := by
          rw [hpending' t, filterMap_event_cons, answersOf_append, List.append_assoc]

/-- **One move.** What a thread has begun has taken effect, or it is waiting for that.
Counting calls is enough, as a thread makes one at a time. -/
theorem calls_step (h : Atomic.step spec a q = some b) (t : τ) :
    (a.status t).waiting + callsOf t q.event.toList
      = (ofThread t (a.effect spec q)).length + (b.status t).waiting := by
  cases q with
  | invoke u c =>
    obtain ⟨hidle, rfl⟩ := Atomic.step_invoke.mp h
    show (a.status t).waiting + callsOf t [.call u c] = 0 + _
    by_cases ht : t = u
    · rw [ht, hidle, Atomic.go_status_self]
      simp [callsOf, Event.isCallOf, Status.waiting]
    · rw [Atomic.go_status_ne _ _ _ ht]
      simp [callsOf, Event.isCallOf, Ne.symm ht]
  | commit u =>
    obtain ⟨c, hcalled, rfl⟩ := Atomic.step_commit.mp h
    show _ + 0 = (ofThread t (match a.status u with
      | .called c => [(u, c, (spec c a.mem).2)]
      | _ => [])).length + _
    rw [hcalled]
    by_cases ht : t = u
    · rw [ht, hcalled, Atomic.go_status_self, ofThread_cons_self]
      rfl
    · rw [Atomic.go_status_ne _ _ _ ht, ofThread_cons_ne ht]
      exact (Nat.zero_add _).symm
  | respond u c r =>
    obtain ⟨hdone, rfl⟩ := Atomic.step_respond.mp h
    show _ + 0 = 0 + _
    by_cases ht : t = u
    · rw [ht, hdone, Atomic.go_status_self]
      rfl
    · rw [Atomic.go_status_ne _ _ _ ht]
      omega

theorem calls_run (hrun : run (Atomic.step spec) a qs = some a') (t : τ) :
    (a.status t).waiting + callsOf t (qs.filterMap Point.event)
      = (ofThread t (a.takes spec qs)).length + (a'.status t).waiting := by
  induction qs generalizing a with
  | nil =>
    obtain rfl := Option.some.inj hrun
    exact Nat.add_comm _ _
  | cons q qs ih =>
    obtain ⟨b, hb, hrest⟩ := run_cons_eq_some.mp hrun
    have hstep := calls_step hb t
    have hlater := ih hrest
    have hcalls : callsOf t ((q :: qs).filterMap Point.event)
        = callsOf t q.event.toList + callsOf t (qs.filterMap Point.event) := by
      rw [filterMap_event_cons, callsOf, List.countP_append]
      rfl
    have hlength : (ofThread t (a.takes spec (q :: qs))).length
        = (ofThread t (a.effect spec q)).length + (ofThread t (b.takes spec qs)).length := by
      rw [Atomic.takes_cons hb, ofThread, List.filter_append, List.length_append]
      rfl
    omega

/-- Calls take effect in real time. -/
theorem takes_inRealTime (hrun : run (Atomic.step spec) a qs = some a')
    (hidle : ∀ t, a.status t = .idle) :
    InRealTime (qs.filterMap Point.event) (a.takes spec qs) := by
  intro pre post hcut
  obtain ⟨qs₁, qs₂, rfl, rfl, -⟩ := List.filterMap_eq_append_iff.mp hcut
  rw [run_append] at hrun
  obtain ⟨b, hb, -⟩ := Option.bind_eq_some_iff.mp hrun
  refine ⟨a.takes spec qs₁, b.takes spec qs₂, Atomic.takes_append hb qs₂, fun t => ⟨?_, ?_⟩⟩
  · have hpending := (sequential hb).2 t
    rw [hidle t] at hpending
    exact ⟨_, hpending.symm⟩
  · have hcalls := calls_run hb t
    rw [hidle t] at hcalls
    have hnone : (Status.idle : Status κ ρ).waiting = 0 := rfl
    omega

end Takes

/-- **Threads, one call after the other.** A run of the threads that ends with no call in
progress is a sequence of calls, in real time. -/
theorem sequential_calls {ι α : Type} [DecidableEq ι] {code : κ → Section ι α ρ}
    {spec : κ → (ι → α) → (ι → α) × ρ} (hspec : ∀ c m, (code c).body.run m = spec c m)
    {m : ι → α} {ls : List (Label τ ι κ ρ)} {s : State τ ι α κ ρ}
    (hrun : run (step code) (State.initial m) ls = some s) (hq : s.Quiescent) :
    ∃ cs : List (τ × κ × ρ), run (seqStep spec) m cs = some s.mem ∧
      (∀ t, ofThread t cs = answersOf t (ls.filterMap Label.event)) ∧
      InRealTime (ls.filterMap Label.event) cs := by
  obtain ⟨a, ha, htrace, -, href, hmem⟩ := linearizable hspec hrun
  obtain ⟨hcs, horder⟩ := sequential ha
  refine ⟨_, hmem hq ▸ hcs, fun t => ?_, htrace ▸ takes_inRealTime ha fun _ => rfl⟩
  have ht := horder t
  have hidle : a.status t = .idle := by
    rw [href.status t, hq t]
    rfl
  rw [htrace, hidle] at ht
  exact ht.trans (List.append_nil _)

end Locks

end Lib
