import LomiriApi.Lib.Ledger
import LomiriApi.Lib.Linearize
import Mathlib.Algebra.BigOperators.Group.Finset.Piecewise

/-!
# Conservation laws of calls

A call may hand something in when it is made and hand something out when it returns,
and what is stored in between must balance. `w` measures the state, `takes` what a call
hands in and `gives` what its answer hands out, all in a commutative monoid.

- `sum_update_add`: how a sum over all threads (or cells) moves when one of them is
  overwritten.
- `Status.due`: what a call in progress has handed in and not stored yet, or what it
  has taken out and not handed over yet.
- `balanced`: if every call balances on its own, then every run balances, whatever the
  interleaving; and `balanced_quiescent`, for threads that execute critical sections.
-/

namespace Lib

variable {τ ι α μ κ ρ M : Type}

/-- Overwriting one term exchanges its old value for the new one. -/
theorem sum_update_add [AddCommMonoid M] [Fintype ι] [DecidableEq ι] (g : α → M) (f : ι → α)
    (i : ι) (a : α) :
    (∑ j, g (Function.update f i a j)) + g (f i) = (∑ j, g (f j)) + g a := by
  have hcomp : (fun j => g (Function.update f i a j))
      = Function.update (fun j => g (f j)) i (g a) := Function.comp_update g f i a
  rw [hcomp, Finset.sum_update_of_mem (Finset.mem_univ i),
    Finset.sum_eq_add_sum_sdiff_singleton_of_mem (Finset.mem_univ i) fun j => g (f j)]
  abel

namespace Locks

section Terms

variable [Zero M] (takes : κ → M) (gives : κ → ρ → M)

/-- What the client has handed in with a call. -/
def Event.taken : Event τ κ ρ → M
  | .call _ c => takes c
  | .answer _ _ _ => 0

/-- What the client has been handed with an answer. -/
def Event.given : Event τ κ ρ → M
  | .call _ _ => 0
  | .answer _ c r => gives c r

/-- What the call of a thread still owes the state, or the client. -/
def Status.due : Status κ ρ → M
  | .idle => 0
  | .called c => takes c
  | .done c r => gives c r

end Terms

section Balanced

variable [AddCancelCommMonoid M] [Fintype τ]

/-- What is stored and what the calls in progress owe. -/
def Atomic.stock (w : μ → M) (takes : κ → M) (gives : κ → ρ → M) (a : Atomic τ μ κ ρ) : M :=
  w a.mem + ∑ t, (a.status t).due takes gives

/-- What changes hands at a move. -/
def Point.taken (takes : κ → M) (q : Point τ κ ρ) : M := q.event.elim 0 (Event.taken takes)

def Point.given (gives : κ → ρ → M) (q : Point τ κ ρ) : M := q.event.elim 0 (Event.given gives)

theorem stock_initial (w : μ → M) (takes : κ → M) (gives : κ → ρ → M) (m : μ) :
    (Atomic.initial m : Atomic τ μ κ ρ).stock w takes gives = w m := by
  have hdue : ∑ t : τ, (Status.idle : Status κ ρ).due takes gives = 0 :=
    Finset.sum_eq_zero fun _ _ => rfl
  show w m + ∑ t : τ, (Status.idle : Status κ ρ).due takes gives = w m
  rw [hdue, add_zero]

variable [DecidableEq τ]

theorem due_go (takes : κ → M) (gives : κ → ρ → M) (a : Atomic τ μ κ ρ) (t : τ) (v : Status κ ρ) :
    (∑ u, ((a.go t v).status u).due takes gives) + (a.status t).due takes gives
      = (∑ u, (a.status u).due takes gives) + v.due takes gives :=
  sum_update_add (Status.due takes gives) a.status t v

variable [DecidableEq κ] [DecidableEq ρ]
  {spec : κ → μ → μ × ρ} {w : μ → M} {takes : κ → M} {gives : κ → ρ → M}

/-- **One move balances.** -/
theorem stock_step (hbal : ∀ c m, w (spec c m).1 + gives c (spec c m).2 = w m + takes c)
    {a a' : Atomic τ μ κ ρ} {q : Point τ κ ρ} (hstep : Atomic.step spec a q = some a') :
    a'.stock w takes gives + q.given gives = a.stock w takes gives + q.taken takes := by
  cases q with
  | invoke t c =>
    obtain ⟨hidle, rfl⟩ := Atomic.step_invoke.mp hstep
    have hsum := due_go takes gives a t (.called c)
    rw [hidle] at hsum
    show w a.mem + ∑ u, ((a.go t (.called c)).status u).due takes gives + 0
      = w a.mem + ∑ u, (a.status u).due takes gives + takes c
    rw [add_assoc, add_assoc]
    exact congrArg (w a.mem + ·) hsum
  | commit t =>
    obtain ⟨c, hcalled, rfl⟩ := Atomic.step_commit.mp hstep
    have hsum := due_go takes gives a t (.done c (spec c a.mem).2)
    rw [hcalled] at hsum
    show w (spec c a.mem).1
        + ∑ u, ((a.go t (.done c (spec c a.mem).2)).status u).due takes gives + 0
      = w a.mem + ∑ u, (a.status u).due takes gives + 0
    -- what the call took in has been stored, what it gives out is due to the client
    refine add_right_cancel (b := takes c + gives c (spec c a.mem).2) ?_
    calc _ = (w (spec c a.mem).1 + gives c (spec c a.mem).2)
          + (∑ u, ((a.go t (.done c (spec c a.mem).2)).status u).due takes gives + takes c) := by
          abel
      _ = (w a.mem + takes c)
          + (∑ u, (a.status u).due takes gives + gives c (spec c a.mem).2) := by
          rw [hbal]
          exact congrArg (w a.mem + takes c + ·) hsum
      _ = _ := by abel
  | respond t c r =>
    obtain ⟨hdone, rfl⟩ := Atomic.step_respond.mp hstep
    have hsum := due_go takes gives a t .idle
    rw [hdone] at hsum
    show w a.mem + ∑ u, ((a.go t .idle).status u).due takes gives + gives c r
      = w a.mem + ∑ u, (a.status u).due takes gives + 0
    rw [add_assoc, add_assoc]
    exact congrArg (w a.mem + ·) hsum

/-- **Every run balances**: what is stored, what the calls in progress owe and what the
answers have handed out is what there was at first and what the calls have handed in. -/
theorem balanced (w : μ → M) (takes : κ → M) (gives : κ → ρ → M)
    (hbal : ∀ c m, w (spec c m).1 + gives c (spec c m).2 = w m + takes c)
    {a a' : Atomic τ μ κ ρ} {qs : List (Point τ κ ρ)}
    (hrun : run (Atomic.step spec) a qs = some a') :
    a'.stock w takes gives + total (Event.given gives) (qs.filterMap Point.event)
      = a.stock w takes gives + total (Event.taken takes) (qs.filterMap Point.event) := by
  have htotal : ∀ (g : Event τ κ ρ → M) (q : Point τ κ ρ) (qs : List (Point τ κ ρ)),
      total g ((q :: qs).filterMap Point.event)
        = q.event.elim 0 g + total g (qs.filterMap Point.event) := by
    intro g q qs
    cases hq : q.event with
    | none => rw [List.filterMap_cons_none hq]; exact (zero_add _).symm
    | some e => rw [List.filterMap_cons_some hq, total_cons]; rfl
  induction qs generalizing a with
  | nil =>
    obtain rfl := Option.some.inj hrun
    rfl
  | cons q qs ih =>
    obtain ⟨b, hb, hrest⟩ := run_cons_eq_some.mp hrun
    rw [htotal, htotal]
    calc a'.stock w takes gives + (q.given gives
          + total (Event.given gives) (qs.filterMap Point.event))
        = (a'.stock w takes gives + total (Event.given gives) (qs.filterMap Point.event))
          + q.given gives := by abel
      _ = (b.stock w takes gives + q.given gives)
          + total (Event.taken takes) (qs.filterMap Point.event) := by
          rw [ih hrest]
          abel
      _ = a.stock w takes gives + (q.taken takes
          + total (Event.taken takes) (qs.filterMap Point.event)) := by
          rw [stock_step hbal hb]
          abel

variable [DecidableEq ι] {code : κ → Section ι α ρ}

/-- **Conservation among threads.** When no call is in progress, what the cells store and
what the answers have handed out is what was there at first and what the calls have
handed in. -/
theorem balanced_quiescent (w : (ι → α) → M) (takes : κ → M) (gives : κ → ρ → M)
    (hbal : ∀ c m, w ((code c).body.run m).1 + gives c ((code c).body.run m).2 = w m + takes c)
    {m : ι → α} {ls : List (Label τ ι κ ρ)} {s : State τ ι α κ ρ}
    (hrun : run (step code) (State.initial m) ls = some s) (hq : s.Quiescent) :
    w s.mem + total (Event.given gives) (ls.filterMap Label.event)
      = w m + total (Event.taken takes) (ls.filterMap Label.event) := by
  obtain ⟨a, ha, htrace, -, href, hmem⟩ := linearizable (fun _ _ => rfl) hrun
  have hbalanced := balanced w takes gives hbal ha
  have hidle : a.stock w takes gives = w s.mem := by
    have hdue : ∑ t : τ, (a.status t).due takes gives = 0 := by
      refine Finset.sum_eq_zero fun t _ => ?_
      rw [href.status t, hq t]
      rfl
    rw [Atomic.stock, hdue, add_zero, hmem hq]
  rwa [hidle, stock_initial, htrace] at hbalanced

end Balanced

end Locks

end Lib
