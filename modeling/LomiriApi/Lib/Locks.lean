import LomiriApi.Lib.Run
import LomiriApi.Lib.Prog
import Mathlib.Data.List.Perm.Basic

/-!
# Threads and mutexes

Threads `τ` share cells, and each cell has a mutex of its own. A call `c : κ` of a
thread is a critical section `code c`: the thread takes the mutexes of the section
in any order, and may put one down again while it still waits for another (as an
algorithm that takes several mutexes without deadlock does); then it executes the
body statement by statement, puts the mutexes down one after the other and
returns. A step of the system is one such move of one thread, so a run is an
arbitrary interleaving, of any calls.

- `Section`: a critical section. Its fields say that no mutex is taken twice and
  that the body touches nothing that the section has not locked.
- `Locks.State`, `Locks.Label`, `Locks.step`: the step function. A mutex knows only
  whether it is locked.
- `Owned`: each locked mutex has exactly one holder, and `Coherent`, the invariant.
- `race_free`: two threads are never about to touch the same cell.
-/

namespace Lib

/-- A critical section: the mutexes it takes, and the program it runs while it
holds them. -/
structure Section (ι α ρ : Type) where
  locks : List ι
  nodup : locks.Nodup
  body : Prog ι α ρ
  within : body.Within locks

open scoped List

namespace Locks

/-- Where a thread is. -/
inductive Phase (ι α κ ρ : Type) where
  /-- between two calls -/
  | idle
  /-- in the call `c`, with the mutexes `todo` still to take and `got` taken -/
  | locking (c : κ) (todo got : List ι)
  /-- in the critical section, with `p` still to execute -/
  | inside (c : κ) (held : List ι) (p : Prog ι α ρ)
  /-- with the result computed, putting the mutexes down -/
  | leaving (c : κ) (r : ρ) (held : List ι)

/-- The mutexes a thread holds. -/
def Phase.held {ι α κ ρ : Type} : Phase ι α κ ρ → List ι
  | .idle => []
  | .locking _ _ got => got
  | .inside _ held _ => held
  | .leaving _ _ held => held

/-- The cells, the mutexes and the threads. -/
structure State (τ ι α κ ρ : Type) where
  mem : ι → α
  locked : ι → Bool
  phase : τ → Phase ι α κ ρ

/-- The moves of a thread. -/
inductive Label (τ ι κ ρ : Type) where
  /-- the thread calls -/
  | invoke (t : τ) (c : κ)
  /-- it takes a mutex -/
  | lock (t : τ) (i : ι)
  /-- it puts a mutex down -/
  | unlock (t : τ) (i : ι)
  /-- it has all mutexes -/
  | enter (t : τ)
  /-- it executes a statement -/
  | exec (t : τ)
  /-- there is no statement left -/
  | finish (t : τ)
  /-- the call returns -/
  | respond (t : τ) (c : κ) (r : ρ)
deriving DecidableEq

/-- What a client sees: calls and their results. -/
inductive Event (τ κ ρ : Type) where
  | call (t : τ) (c : κ)
  | answer (t : τ) (c : κ) (r : ρ)
deriving DecidableEq

/-- What a client sees of a move. -/
def Label.event {τ ι κ ρ : Type} : Label τ ι κ ρ → Option (Event τ κ ρ)
  | .invoke t c => some (.call t c)
  | .respond t c r => some (.answer t c r)
  | _ => none

variable {τ ι α κ ρ : Type}

namespace State

/-- All threads are between two calls, all mutexes are free. -/
def initial (m : ι → α) : State τ ι α κ ρ := ⟨m, fun _ => false, fun _ => .idle⟩

/-- No call is in progress. -/
def Quiescent (s : State τ ι α κ ρ) : Prop := ∀ t, s.phase t = .idle

end State

/-! ## Who holds what -/

/-- A mutex is locked exactly when a thread holds it; that is one thread, and it
holds it once. -/
structure Owned (locked : ι → Bool) (held : τ → List ι) : Prop where
  nodup : ∀ t, (held t).Nodup
  locked_iff : ∀ i, locked i = true ↔ ∃ t, i ∈ held t
  unique : ∀ t u i, i ∈ held t → i ∈ held u → t = u

section Owned

variable {locked : ι → Bool} {held : τ → List ι}

/-- Nobody holds a lock that is free. -/
theorem Owned.not_mem (h : Owned locked held) {i : ι} (hi : locked i = false) (t : τ) :
    i ∉ held t := by
  intro hmem
  rw [(h.locked_iff i).mpr ⟨t, hmem⟩] at hi
  cases hi

/-- Nobody holds anything. -/
theorem owned_free : Owned (fun _ => false) (fun _ : τ => ([] : List ι)) where
  nodup := fun _ => List.nodup_nil
  locked_iff := by simp
  unique := by simp

end Owned

/-! ## The invariant -/

/-- What a thread still needs and what it has are the mutexes of its section; and
it holds what the rest of its program touches. -/
def Phase.Wf (code : κ → Section ι α ρ) : Phase ι α κ ρ → Prop
  | .idle => True
  | .locking c todo got => todo ++ got ~ (code c).locks
  | .inside _ held p => p.Within held
  | .leaving _ _ _ => True

/-- The invariant of the system. -/
structure Coherent (code : κ → Section ι α ρ) (s : State τ ι α κ ρ) : Prop where
  owned : Owned s.locked fun t => (s.phase t).held
  wf : ∀ t, (s.phase t).Wf code

/-- At the beginning nobody is in a section and every lock is free. -/
theorem coherent_initial (code : κ → Section ι α ρ) (m : ι → α) :
    Coherent code (State.initial m : State τ ι α κ ρ) := ⟨owned_free, fun _ => trivial⟩

/-- The cell the thread is about to touch. -/
def Phase.touches : Phase ι α κ ρ → Option ι
  | .inside _ _ p => p.touches
  | _ => none

/-- **No data race.** If two threads are about to touch the same cell, they are the same
thread; and the thread holds the cell's mutex. -/
theorem Coherent.race_free {code : κ → Section ι α ρ} {s : State τ ι α κ ρ}
    (h : Coherent code s) {t u : τ} {i : ι}
    (ht : (s.phase t).touches = some i) (hu : (s.phase u).touches = some i) :
    t = u ∧ i ∈ (s.phase t).held := by
  have hmem : ∀ v, (s.phase v).touches = some i → i ∈ (s.phase v).held := by
    intro v hv
    have hwf := h.wf v
    cases hph : s.phase v with
    | inside c held p =>
      rw [hph] at hv hwf
      exact Prog.mem_of_touches hwf hv
    | _ =>
      rw [hph] at hv
      cases hv
  exact ⟨h.owned.unique t u i (hmem t ht) (hmem u hu), hmem t ht⟩

/-! ## The step function -/

namespace State

/-- Thread `t` moves on. -/
def go [DecidableEq τ] (s : State τ ι α κ ρ) (t : τ) (ph : Phase ι α κ ρ) : State τ ι α κ ρ :=
  { s with phase := Function.update s.phase t ph }

/-- The mutex `i` changes. -/
def setLock [DecidableEq ι] (s : State τ ι α κ ρ) (i : ι) (b : Bool) : State τ ι α κ ρ :=
  { s with locked := Function.update s.locked i b }

section Reading

variable [DecidableEq τ] (s : State τ ι α κ ρ) (t : τ) (ph : Phase ι α κ ρ)

@[simp] theorem go_phase_self : (s.go t ph).phase t = ph := by simp [go]

theorem go_phase_ne {u : τ} (h : u ≠ t) : (s.go t ph).phase u = s.phase u := by
  simp [go, h]

@[simp] theorem setLock_locked_self [DecidableEq ι] (i : ι) (b : Bool) :
    ((s.setLock i b).go t ph).locked i = b := by
  simp [go, setLock]

end Reading

end State

section Moving

variable [DecidableEq τ] {code : κ → Section ι α ρ} {s : State τ ι α κ ρ}

/-- Who holds what changes at one thread only. `Owned` is about the function on the left,
so its lemmas on updates apply. -/
theorem held_go (s : State τ ι α κ ρ) (t : τ) (ph : Phase ι α κ ρ) :
    (fun u => ((s.go t ph).phase u).held)
      = Function.update (fun u => (s.phase u).held) t ph.held :=
  Function.comp_update Phase.held s.phase t ph

/-- Thread `t` moves on, and the mutexes and cells with it. -/
theorem Coherent.move (h : Coherent code s) {t : τ} {ph : Phase ι α κ ρ} {m : ι → α}
    {locked : ι → Bool} (hwf : ph.Wf code)
    (howned : Owned locked (Function.update (fun u => (s.phase u).held) t ph.held)) :
    Coherent code ((⟨m, locked, s.phase⟩ : State τ ι α κ ρ).go t ph) where
  owned := by
    rw [held_go]
    exact howned
  wf := by
    intro u
    show (Function.update s.phase t ph u).Wf code
    by_cases hu : u = t
    · rwa [hu, Function.update_self]
    · rw [Function.update_of_ne hu]
      exact h.wf u

/-- A move that takes and puts down nothing. -/
theorem Coherent.go (h : Coherent code s) {t : τ} {ph : Phase ι α κ ρ} {m : ι → α}
    (hwf : ph.Wf code) (hheld : ph.held = (s.phase t).held) :
    Coherent code ((⟨m, s.locked, s.phase⟩ : State τ ι α κ ρ).go t ph) := by
  refine h.move hwf ?_
  rw [hheld, Function.update_eq_self]
  exact h.owned

end Moving

variable [DecidableEq τ] [DecidableEq ι]

section Step

variable [DecidableEq κ] [DecidableEq ρ]

/-- One move. -/
def step (code : κ → Section ι α ρ) (s : State τ ι α κ ρ) :
    Label τ ι κ ρ → Option (State τ ι α κ ρ)
  | .invoke t c =>
    match s.phase t with
    | .idle => some (s.go t (.locking c (code c).locks []))
    | _ => none
  | .lock t i =>
    match s.phase t with
    | .locking c todo got =>
      if i ∈ todo ∧ s.locked i = false then
        some ((s.setLock i true).go t (.locking c (todo.erase i) (i :: got)))
      else none
    | _ => none
  | .unlock t i =>
    match s.phase t with
    | .locking c todo got =>
      if i ∈ got then some ((s.setLock i false).go t (.locking c (i :: todo) (got.erase i)))
      else none
    | .leaving c r held =>
      if i ∈ held then some ((s.setLock i false).go t (.leaving c r (held.erase i))) else none
    | _ => none
  | .enter t =>
    match s.phase t with
    | .locking c [] got => some (s.go t (.inside c got (code c).body))
    | _ => none
  | .exec t =>
    match s.phase t with
    | .inside c held p =>
      (p.next s.mem).map fun mq => { s with mem := mq.1 }.go t (.inside c held mq.2)
    | _ => none
  | .finish t =>
    match s.phase t with
    | .inside c held (.ret r) => some (s.go t (.leaving c r held))
    | _ => none
  | .respond t c r =>
    match s.phase t with
    | .leaving c' r' [] => if c = c' ∧ r = r' then some (s.go t .idle) else none
    | _ => none

/-! ## When a move is possible -/

section Moves

variable {code : κ → Section ι α ρ} {s s' : State τ ι α κ ρ} {t : τ} {c : κ} {r : ρ} {i : ι}

/-- **What a step can do**, label by label, guards included. No later proof unfolds `step`:
it begins with the lemma for its label. -/
theorem step_invoke : step code s (.invoke t c) = some s' ↔
    s.phase t = .idle ∧ s' = s.go t (.locking c (code c).locks []) := by
  cases h : s.phase t <;> simp [step, h, @eq_comm _ s']

theorem step_lock : step code s (.lock t i) = some s' ↔
    ∃ c todo got, s.phase t = .locking c todo got ∧ i ∈ todo ∧ s.locked i = false ∧
      s' = (s.setLock i true).go t (.locking c (todo.erase i) (i :: got)) := by
  cases h : s.phase t <;> simp [step, h, @eq_comm _ s', and_assoc]

/-- A lock is given back while locking, when a thread backs off to avoid a deadlock, or on
the way out. -/
theorem step_unlock : step code s (.unlock t i) = some s' ↔
    (∃ c todo got, s.phase t = .locking c todo got ∧ i ∈ got ∧
      s' = (s.setLock i false).go t (.locking c (i :: todo) (got.erase i))) ∨
    (∃ c r held, s.phase t = .leaving c r held ∧ i ∈ held ∧
      s' = (s.setLock i false).go t (.leaving c r (held.erase i))) := by
  cases h : s.phase t <;> simp [step, h, @eq_comm _ s']

theorem step_enter : step code s (.enter t) = some s' ↔
    ∃ c got, s.phase t = .locking c [] got ∧ s' = s.go t (.inside c got (code c).body) := by
  cases h : s.phase t with
  | locking c todo got => cases todo <;> simp [step, h, @eq_comm _ s']
  | _ => simp [step, h]

theorem step_exec : step code s (.exec t) = some s' ↔
    ∃ c held p m q, s.phase t = .inside c held p ∧ p.next s.mem = some (m, q) ∧
      s' = { s with mem := m }.go t (.inside c held q) := by
  cases h : s.phase t <;> simp [step, h, @eq_comm _ s']

theorem step_finish : step code s (.finish t) = some s' ↔
    ∃ c held r, s.phase t = .inside c held (.ret r) ∧ s' = s.go t (.leaving c r held) := by
  cases h : s.phase t with
  | inside c held p => cases p <;> simp [step, h, @eq_comm _ s']
  | _ => simp [step, h]

/-- A call returns only after all its locks were given back. -/
theorem step_respond : step code s (.respond t c r) = some s' ↔
    s.phase t = .leaving c r [] ∧ s' = s.go t .idle := by
  cases h : s.phase t with
  | leaving c' r' held =>
    cases held <;> simp [step, h, @eq_comm _ s', @eq_comm _ c, @eq_comm _ r, and_assoc]
  | _ => simp [step, h]

end Moves

end Step

/-! ## Taking a mutex and putting it down -/

section Owned

variable {locked : ι → Bool} {held : τ → List ι}

/-- Taking a free mutex. -/
theorem Owned.take (h : Owned locked held) {t : τ} {i : ι} (hi : locked i = false) :
    Owned (Function.update locked i true) (Function.update held t (i :: held t)) := by
  have hself : ∀ u, i ∈ Function.update held t (i :: held t) u ↔ u = t := by
    intro u
    by_cases hu : u = t
    · simp [hu]
    · simp [h.not_mem hi, hu]
  have hother : ∀ j ≠ i, ∀ u, j ∈ Function.update held t (i :: held t) u ↔ j ∈ held u := by
    intro j hj u
    by_cases hu : u = t
    · simp [hu, hj]
    · rw [Function.update_of_ne hu]
  refine ⟨fun u => ?_, fun j => ?_, fun u v j hju hjv => ?_⟩
  · by_cases hu : u = t
    · subst hu
      rw [Function.update_self]
      exact List.nodup_cons.mpr ⟨h.not_mem hi u, h.nodup u⟩
    · rw [Function.update_of_ne hu]
      exact h.nodup u
  · by_cases hj : j = i
    · simp [hj, hself]
    · rw [Function.update_of_ne hj, h.locked_iff j]
      simp only [hother j hj]
  · by_cases hj : j = i
    · subst hj
      rw [(hself u).mp hju, (hself v).mp hjv]
    · exact h.unique u v j ((hother j hj u).mp hju) ((hother j hj v).mp hjv)

/-- Putting down a mutex that one holds. -/
theorem Owned.drop (h : Owned locked held) {t : τ} {i : ι} (hi : i ∈ held t) :
    Owned (Function.update locked i false) (Function.update held t ((held t).erase i)) := by
  have hself : ∀ u, i ∉ Function.update held t ((held t).erase i) u := by
    intro u
    by_cases hu : u = t
    · subst hu
      rw [Function.update_self]
      exact (h.nodup u).not_mem_erase
    · rw [Function.update_of_ne hu]
      exact fun hmem => hu (h.unique u t i hmem hi)
  have hother : ∀ j ≠ i, ∀ u,
      j ∈ Function.update held t ((held t).erase i) u ↔ j ∈ held u := by
    intro j hj u
    by_cases hu : u = t
    · subst hu
      rw [Function.update_self, List.mem_erase_of_ne hj]
    · rw [Function.update_of_ne hu]
  refine ⟨fun u => ?_, fun j => ?_, fun u v j hju hjv => ?_⟩
  · by_cases hu : u = t
    · subst hu
      rw [Function.update_self]
      exact (h.nodup u).erase i
    · rw [Function.update_of_ne hu]
      exact h.nodup u
  · by_cases hj : j = i
    · simp [hj, hself]
    · rw [Function.update_of_ne hj, h.locked_iff j]
      simp only [hother j hj]
  · by_cases hj : j = i
    · exact absurd (hj ▸ hju) (hself u)
    · exact h.unique u v j ((hother j hj u).mp hju) ((hother j hj v).mp hjv)

end Owned

/-! ## Every move keeps the invariant -/

section Coherent

variable {code : κ → Section ι α ρ} {s s' : State τ ι α κ ρ}

/-- Taking a free lock keeps the state coherent. -/
theorem Coherent.take (h : Coherent code s) {t : τ} {ph : Phase ι α κ ρ} {i : ι}
    (hwf : ph.Wf code) (hi : s.locked i = false) (hheld : ph.held = i :: (s.phase t).held) :
    Coherent code ((s.setLock i true).go t ph) := by
  refine h.move hwf ?_
  rw [hheld]
  exact h.owned.take hi

/-- And so does giving one back. -/
theorem Coherent.drop (h : Coherent code s) {t : τ} {ph : Phase ι α κ ρ} {i : ι}
    (hwf : ph.Wf code) (hi : i ∈ (s.phase t).held) (hheld : ph.held = (s.phase t).held.erase i) :
    Coherent code ((s.setLock i false).go t ph) := by
  refine h.move hwf ?_
  rw [hheld]
  exact h.owned.drop hi

/-- Every move keeps the invariant. -/
theorem coherent_step [DecidableEq κ] [DecidableEq ρ] {l : Label τ ι κ ρ} (h : Coherent code s)
    (hstep : step code s l = some s') : Coherent code s' := by
  cases l with
  | invoke t c =>
    obtain ⟨hph, rfl⟩ := step_invoke.mp hstep
    have hwf : Phase.Wf code (.locking c (code c).locks [] : Phase ι α κ ρ) := by
      simp [Phase.Wf]
    exact h.go hwf (by rw [hph]; rfl)
  | lock t i =>
    obtain ⟨c, todo, got, hph, hmem, hfree, rfl⟩ := step_lock.mp hstep
    have hwf := h.wf t
    rw [hph] at hwf
    refine h.take ?_ hfree (by rw [hph]; rfl)
    calc todo.erase i ++ i :: got
        ~ i :: todo.erase i ++ got := List.perm_middle
      _ ~ todo ++ got := (List.perm_cons_erase hmem).symm.append_right got
      _ ~ (code c).locks := hwf
  | unlock t i =>
    obtain ⟨c, todo, got, hph, hmem, rfl⟩ | ⟨c, r, held, hph, hmem, rfl⟩ := step_unlock.mp hstep
    · have hwf := h.wf t
      rw [hph] at hwf
      refine h.drop ?_ (by rw [hph]; exact hmem) (by rw [hph]; rfl)
      have hmove : i :: todo ++ got.erase i ~ todo ++ got :=
        List.perm_middle.symm.trans ((List.perm_cons_erase hmem).symm.append_left todo)
      exact hmove.trans hwf
    · exact h.drop trivial (by rw [hph]; exact hmem) (by rw [hph]; rfl)
  | enter t =>
    obtain ⟨c, got, hph, rfl⟩ := step_enter.mp hstep
    have hwf := h.wf t
    rw [hph] at hwf
    -- everything the section touches has been locked
    have hbody : (code c).body.Within got :=
      (code c).within.mono fun i hi => hwf.symm.subset hi
    exact h.go hbody (by rw [hph]; rfl)
  | exec t =>
    obtain ⟨c, held, p, m, q, hph, hnext, rfl⟩ := step_exec.mp hstep
    have hwf := h.wf t
    rw [hph] at hwf
    exact h.go (Prog.within_next hwf hnext) (by rw [hph]; rfl)
  | finish t =>
    obtain ⟨c, held, r, hph, rfl⟩ := step_finish.mp hstep
    exact h.go trivial (by rw [hph]; rfl)
  | respond t c r =>
    obtain ⟨hph, rfl⟩ := step_respond.mp hstep
    exact h.go trivial (by rw [hph]; rfl)

/-- So in every state that a run reaches, a thread in a section holds the locks of the
section, and each lock has one holder at most. -/
theorem coherent_run [DecidableEq κ] [DecidableEq ρ] {ls : List (Label τ ι κ ρ)}
    (h : Coherent code s) (hrun : run (step code) s ls = some s') : Coherent code s' :=
  run_invariant (fun _ _ _ => coherent_step) h hrun

end Coherent

end Locks

end Lib
