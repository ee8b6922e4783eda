import LomiriApi.Lib.Locks

/-!
# Calls in one piece

What clients should see of a system of threads and mutexes: every call takes
effect in one piece, at one moment between the call and its return.

- `Atomic.step`: the system in which it does. A thread calls, its call takes effect
  according to `spec`, and it returns the result.
- `Label.point`: the moment at which a call of the threads takes effect. It is the one
  at which the call has all its mutexes.
- `Phase.ahead`, `Phase.status`: what the cells and the result will be when the thread
  is done. The calls in progress are rolled forward: `Refines`.
- `linearizable`: every run of the threads is, seen from outside, a run of the atomic
  system, with the same cells as soon as no call is in progress.
- `lags`: in the middle of a run, the cells are behind those of the atomic system in
  any preorder that the assignments respect.
-/

namespace Lib

open scoped List

namespace Locks

/-- Where a call is, for a client who cannot look inside: not begun, without effect as yet,
or done and about to return. -/
inductive Status (κ ρ : Type) where
  | idle
  /-- called, without effect as yet -/
  | called (c : κ)
  /-- done, with this result -/
  | done (c : κ) (r : ρ)
deriving DecidableEq

/-- A state on which calls act in one piece. There are no mutexes any more, as nothing
happens between two parts of a call. -/
structure Atomic (τ μ κ ρ : Type) where
  mem : μ
  status : τ → Status κ ρ

/-- The moves of a thread in the atomic system. -/
inductive Point (τ κ ρ : Type) where
  | invoke (t : τ) (c : κ)
  /-- the call takes effect -/
  | commit (t : τ)
  | respond (t : τ) (c : κ) (r : ρ)
deriving DecidableEq

/-- What a client sees of a move. -/
def Point.event {τ κ ρ : Type} : Point τ κ ρ → Option (Event τ κ ρ)
  | .invoke t c => some (.call t c)
  | .commit _ => none
  | .respond t c r => some (.answer t c r)

/-- The move of the atomic system that a move of the threads is. The call commits when it
enters its section: from then on no other thread can reach its cells. -/
def Label.point {τ ι κ ρ : Type} : Label τ ι κ ρ → Option (Point τ κ ρ)
  | .invoke t c => some (.invoke t c)
  | .enter t => some (.commit t)
  | .respond t c r => some (.respond t c r)
  | _ => none

variable {τ ι α μ κ ρ : Type}

/-- Forgetting the inner moves does not change what a client sees. So a run of the atomic
system has the same history. -/
theorem point_event (l : Label τ ι κ ρ) : l.point.bind Point.event = l.event := by
  cases l <;> rfl

theorem trace_point (ls : List (Label τ ι κ ρ)) :
    (ls.filterMap Label.point).filterMap Point.event = ls.filterMap Label.event := by
  rw [List.filterMap_filterMap]
  exact List.filterMap_congr fun l _ => point_event l

namespace Atomic

/-- No thread has called yet. -/
def initial (m : μ) : Atomic τ μ κ ρ := ⟨m, fun _ => .idle⟩

variable [DecidableEq τ]

/-- The status of thread `t` changes. -/
def go (a : Atomic τ μ κ ρ) (t : τ) (st : Status κ ρ) : Atomic τ μ κ ρ :=
  { a with status := Function.update a.status t st }

variable [DecidableEq κ] [DecidableEq ρ]

/-- One move of the atomic system. -/
def step (spec : κ → μ → μ × ρ) (a : Atomic τ μ κ ρ) : Point τ κ ρ → Option (Atomic τ μ κ ρ)
  | .invoke t c =>
    match a.status t with
    | .idle => some (a.go t (.called c))
    | _ => none
  | .commit t =>
    match a.status t with
    | .called c => some ({ a with mem := (spec c a.mem).1 }.go t (.done c (spec c a.mem).2))
    | _ => none
  | .respond t c r =>
    match a.status t with
    | .done c' r' => if c = c' ∧ r = r' then some (a.go t .idle) else none
    | _ => none

section Moves

variable {spec : κ → μ → μ × ρ} {a a' : Atomic τ μ κ ρ} {t : τ} {c : κ} {r : ρ}

theorem step_invoke : step spec a (.invoke t c) = some a' ↔
    a.status t = .idle ∧ a' = a.go t (.called c) := by
  cases h : a.status t <;> simp [step, h, @eq_comm _ a']

theorem step_commit : step spec a (.commit t) = some a' ↔
    ∃ c, a.status t = .called c ∧
      a' = { a with mem := (spec c a.mem).1 }.go t (.done c (spec c a.mem).2) := by
  cases h : a.status t <;> simp [step, h, @eq_comm _ a']

theorem step_respond : step spec a (.respond t c r) = some a' ↔
    a.status t = .done c r ∧ a' = a.go t .idle := by
  cases h : a.status t <;>
    simp [step, h, @eq_comm _ a', @eq_comm _ c, @eq_comm _ r, and_assoc]

end Moves

end Atomic

/-! ## Rolling the calls in progress forward -/

section Ahead

variable [DecidableEq ι]

/-- The cells when the thread has executed the rest of its program. To the atomic system,
this has happened already. -/
def Phase.ahead (m : ι → α) : Phase ι α κ ρ → ι → α
  | .inside _ _ p => (p.run m).1
  | _ => m

/-- The status of the thread's call. -/
def Phase.status (m : ι → α) : Phase ι α κ ρ → Status κ ρ
  | .idle => .idle
  | .locking c _ _ => .called c
  | .inside c _ p => .done c (p.run m).2
  | .leaving c r _ => .done c r

/-- Only the cells that the thread holds matter for what it is going to do. Hence other
threads, which hold others, cannot change its future. -/
theorem Phase.ahead_congr {code : κ → Section ι α ρ} {ph : Phase ι α κ ρ} (hwf : ph.Wf code)
    {m m' : ι → α} (h : ∀ i ∈ ph.held, m i = m' i) :
    ph.status m = ph.status m' ∧ ∀ i ∈ ph.held, ph.ahead m i = ph.ahead m' i := by
  cases ph with
  | inside c held p =>
    obtain ⟨hres, hmem⟩ := Prog.run_congr hwf h
    exact ⟨congrArg (Status.done c) hres, hmem⟩
  | _ => exact ⟨rfl, h⟩

/-- The atomic system is the threads' system with the calls in progress rolled forward.
Each cell is as its holder will leave it, and the free ones are as they are. -/
structure Refines (s : State τ ι α κ ρ) (a : Atomic τ (ι → α) κ ρ) : Prop where
  status : ∀ t, a.status t = (s.phase t).status s.mem
  free : ∀ i, s.locked i = false → a.mem i = s.mem i
  held : ∀ t, ∀ i ∈ (s.phase t).held, a.mem i = (s.phase t).ahead s.mem i

theorem refines_initial (m : ι → α) :
    Refines (State.initial m : State τ ι α κ ρ) (Atomic.initial m) :=
  ⟨fun _ => rfl, fun _ _ => rfl, fun _ _ _ => rfl⟩

/-- With no call in progress the cells are the same. -/
theorem Refines.quiescent {code : κ → Section ι α ρ} {s : State τ ι α κ ρ}
    {a : Atomic τ (ι → α) κ ρ} (h : Refines s a) (hc : Coherent code s) (hq : s.Quiescent) :
    a.mem = s.mem := by
  funext i
  refine h.free i ?_
  rw [← Bool.not_eq_true, hc.owned.locked_iff]
  rintro ⟨t, ht⟩
  rw [hq t] at ht
  cases ht

end Ahead

/-! ## What the threads have still to do -/

/-- The assignments that the thread has still to make respect `r`. Then the cells can only
go on from where they are. -/
def Phase.Respects (r : α → α → Prop) : Phase ι α κ ρ → Prop
  | .inside _ _ p => p.Respects r
  | _ => True

theorem respects_go [DecidableEq τ] {s : State τ ι α κ ρ} {r : α → α → Prop}
    (h : ∀ u, (s.phase u).Respects r) {t : τ} {ph : Phase ι α κ ρ} {m : ι → α}
    {locked : ι → Bool} (hph : ph.Respects r) (u : τ) :
    (((⟨m, locked, s.phase⟩ : State τ ι α κ ρ).go t ph).phase u).Respects r := by
  show (Function.update s.phase t ph u).Respects r
  by_cases hu : u = t
  · rwa [hu, Function.update_self]
  · rw [Function.update_of_ne hu]
    exact h u

/-! ## Every move of the threads -/

section Simulation

variable [DecidableEq τ] [DecidableEq ι] {code : κ → Section ι α ρ} {s s' : State τ ι α κ ρ}
  {a : Atomic τ (ι → α) κ ρ}

/-- The rule for a move of thread `t`: it accounts for its own cells and for the free ones,
and disturbs no other thread. The moves below are instances. -/
theorem Refines.move (h : Refines s a) {t : τ} {ph : Phase ι α κ ρ} {v : Status κ ρ}
    {m n : ι → α} {locked : ι → Bool} (hstatus : v = ph.status m)
    (hfree : ∀ i, locked i = false → n i = m i)
    (hself : ∀ i ∈ ph.held, n i = ph.ahead m i)
    (hother : ∀ u ≠ t, (s.phase u).status s.mem = (s.phase u).status m ∧
      ∀ i ∈ (s.phase u).held, n i = (s.phase u).ahead m i) :
    Refines ((⟨m, locked, s.phase⟩ : State τ ι α κ ρ).go t ph)
      ((⟨n, a.status⟩ : Atomic τ (ι → α) κ ρ).go t v) where
  status := by
    intro u
    show Function.update a.status t v u = (Function.update s.phase t ph u).status m
    by_cases hu : u = t
    · rw [hu, Function.update_self, Function.update_self, hstatus]
    · rw [Function.update_of_ne hu, Function.update_of_ne hu, h.status u, (hother u hu).1]
  free := hfree
  held := by
    intro u i
    show i ∈ (Function.update s.phase t ph u).held →
      n i = (Function.update s.phase t ph u).ahead m i
    by_cases hu : u = t
    · rw [hu, Function.update_self]
      exact hself i
    · rw [Function.update_of_ne hu]
      exact (hother u hu).2 i

/-- A move that touches neither the cells nor a mutex. -/
theorem Refines.go (h : Refines s a) {t : τ} {ph : Phase ι α κ ρ} {v : Status κ ρ}
    (hstatus : v = ph.status s.mem) (hheld : ph.held = (s.phase t).held)
    (hahead : ph.ahead s.mem = (s.phase t).ahead s.mem) :
    Refines (s.go t ph) (a.go t v) := by
  refine h.move hstatus h.free (fun i hi => ?_) fun u _ => ⟨rfl, h.held u⟩
  rw [hahead]
  exact h.held t i (hheld ▸ hi)

/-- A move of the threads that the atomic system does not see. -/
theorem Refines.of_stutter {t : τ} {s' : State τ ι α κ ρ} {v : Status κ ρ}
    (h : Refines s' (a.go t v)) (hst : v = a.status t) : Refines s' a := by
  rwa [hst, Atomic.go, Function.update_eq_self] at h

/-- Taking a mutex. -/
theorem Refines.take (h : Refines s a) {t : τ} {c : κ} {todo todo' got : List ι} {i : ι}
    (hph : s.phase t = .locking c todo got) (hi : s.locked i = false) :
    Refines ((s.setLock i true).go t (.locking c todo' (i :: got))) a := by
  refine (h.move (v := .called c) rfl (fun j hj => ?_) (fun j hj => ?_)
    fun u _ => ⟨rfl, h.held u⟩).of_stutter (by rw [h.status t, hph]; rfl)
  · refine h.free j ?_
    by_cases hji : j = i
    · rwa [hji]
    · rwa [Function.update_of_ne hji] at hj
  · -- the cell was free until now
    rcases List.mem_cons.mp hj with rfl | hmem
    · exact h.free j hi
    · have hold := h.held t j (by rwa [hph])
      rwa [hph] at hold

/-- Putting a mutex down, with the cell as it should be. -/
theorem Refines.drop (h : Refines s a) {t : τ} {ph : Phase ι α κ ρ} {i : ι}
    (hstatus : ph.status s.mem = (s.phase t).status s.mem)
    (hi : i ∈ (s.phase t).held) (hsub : ∀ j ∈ ph.held, j ∈ (s.phase t).held)
    (hahead : (s.phase t).ahead s.mem = s.mem) (hahead' : ph.ahead s.mem = s.mem) :
    Refines ((s.setLock i false).go t ph) a := by
  have hcell : ∀ j ∈ (s.phase t).held, a.mem j = s.mem j := by
    intro j hj
    rw [h.held t j hj, hahead]
  refine (h.move (v := ph.status s.mem) rfl (fun j hj => ?_) (fun j hj => ?_)
    fun u _ => ⟨rfl, h.held u⟩).of_stutter (by rw [h.status t, hstatus])
  · by_cases hji : j = i
    · exact hcell j (hji ▸ hi)
    · refine h.free j ?_
      rwa [Function.update_of_ne hji] at hj
  · show a.mem j = ph.ahead s.mem j
    rw [hahead']
    exact hcell j (hsub j hj)

/-- Executing a statement: the thread's own future is the same as before, and the cells of
the others are untouched. So the atomic system does not move. -/
theorem Refines.exec (h : Refines s a) (hc : Coherent code s) {t : τ} {c : κ} {held : List ι}
    {p q : Prog ι α ρ} {m : ι → α} (hph : s.phase t = .inside c held p)
    (hnext : p.next s.mem = some (m, q)) :
    Refines ({ s with mem := m }.go t (.inside c held q)) a := by
  have hwf := hc.wf t
  rw [hph] at hwf
  have hself : (s.phase t).held = held := by rw [hph]; rfl
  have hrun : p.run s.mem = q.run m := Prog.run_next hnext
  have hkeep : ∀ i, i ∉ held → m i = s.mem i := fun i => Prog.next_of_not_mem hwf hnext
  refine (h.move (v := .done c (q.run m).2) rfl (fun i hi => ?_) (fun i hi => ?_)
    fun u hu => ?_).of_stutter ?_
  · rw [hkeep i (hself ▸ hc.owned.not_mem hi t)]
    exact h.free i hi
  · have hold := h.held t i (hself ▸ hi)
    rw [hph] at hold
    show a.mem i = (q.run m).1 i
    rw [hold, ← hrun]
    rfl
  · have hagree : ∀ i ∈ (s.phase u).held, s.mem i = m i := by
      intro i hi
      exact (hkeep i fun hmem => hu (hc.owned.unique u t i hi (hself ▸ hmem))).symm
    obtain ⟨hstatus, hahead⟩ := Phase.ahead_congr (hc.wf u) hagree
    exact ⟨hstatus, fun i hi => (h.held u i hi).trans (hahead i hi)⟩
  · rw [h.status t, hph, ← hrun]
    rfl

variable [DecidableEq κ] [DecidableEq ρ] {spec : κ → (ι → α) → (ι → α) × ρ}

/-- Entering the critical section: the call takes effect. The thread holds all its mutexes
now, so what it will do is determined. -/
theorem Refines.enter (h : Refines s a) (hspec : ∀ c m, (code c).body.run m = spec c m)
    (hc : Coherent code s) {t : τ} {c : κ} {got : List ι} (hph : s.phase t = .locking c [] got) :
    ∃ a', Atomic.step spec a (.commit t) = some a' ∧
      Refines (s.go t (.inside c got (code c).body)) a' := by
  have hwf : got ~ (code c).locks := by
    have hwf := hc.wf t
    rwa [hph] at hwf
  have hbody : (code c).body.Within got := (code c).within.mono fun i hi => hwf.symm.subset hi
  have hself : (s.phase t).held = got := by rw [hph]; rfl
  -- the thread holds these cells, and nothing has happened to them
  have hagree : ∀ i ∈ got, a.mem i = s.mem i := by
    intro i hi
    have hold := h.held t i (hself ▸ hi)
    rwa [hph] at hold
  obtain ⟨hres, hmem⟩ := Prog.run_congr hbody hagree
  rw [hspec c a.mem] at hres hmem
  have hkeep : ∀ i, i ∉ got → (spec c a.mem).1 i = a.mem i := by
    intro i hi
    rw [← hspec]
    exact Prog.run_of_not_mem hbody a.mem hi
  have hpoint : Atomic.step spec a (.commit t) = some
      ({ a with mem := (spec c a.mem).1 }.go t (.done c (spec c a.mem).2)) :=
    Atomic.step_commit.mpr ⟨c, by rw [h.status t, hph]; rfl, rfl⟩
  refine ⟨_, hpoint, h.move (congrArg (Status.done c) hres) (fun i hi => ?_) hmem
    fun u hu => ⟨rfl, fun i hi => ?_⟩⟩
  · rw [hkeep i (hself ▸ hc.owned.not_mem hi t)]
    exact h.free i hi
  · rw [hkeep i fun hmem => hu (hc.owned.unique u t i hi (hself ▸ hmem))]
    exact h.held u i hi

/-- The state of the atomic system after the point `q`, if there is one. -/
def Atomic.stepPoint (spec : κ → μ → μ × ρ) (a : Atomic τ μ κ ρ) :
    Option (Point τ κ ρ) → Option (Atomic τ μ κ ρ)
  | some q => Atomic.step spec a q
  | none => some a

/-- **One move.** The atomic system makes the same move, or none. -/
theorem refines_step (hspec : ∀ c m, (code c).body.run m = spec c m) {l : Label τ ι κ ρ}
    (hc : Coherent code s) (h : Refines s a) (hstep : step code s l = some s') :
    ∃ a', a.stepPoint spec l.point = some a' ∧ Refines s' a' := by
  cases l with
  | invoke t c =>
    obtain ⟨hph, rfl⟩ := step_invoke.mp hstep
    have hpoint : Atomic.step spec a (.invoke t c) = some (a.go t (.called c)) :=
      Atomic.step_invoke.mpr ⟨by rw [h.status t, hph]; rfl, rfl⟩
    exact ⟨_, hpoint, h.go rfl (by rw [hph]; rfl) (by rw [hph]; rfl)⟩
  | lock t i =>
    obtain ⟨c, todo, got, hph, hmem, hfree, rfl⟩ := step_lock.mp hstep
    exact ⟨a, rfl, h.take hph hfree⟩
  | unlock t i =>
    obtain ⟨c, todo, got, hph, hmem, rfl⟩ | ⟨c, r, held, hph, hmem, rfl⟩ := step_unlock.mp hstep
    · refine ⟨a, rfl, h.drop ?_ ?_ ?_ ?_ rfl⟩
      · rw [hph]; rfl
      · rw [hph]; exact hmem
      · rw [hph]; exact fun j hj => List.mem_of_mem_erase hj
      · rw [hph]; rfl
    · refine ⟨a, rfl, h.drop ?_ ?_ ?_ ?_ rfl⟩
      · rw [hph]; rfl
      · rw [hph]; exact hmem
      · rw [hph]; exact fun j hj => List.mem_of_mem_erase hj
      · rw [hph]; rfl
  | enter t =>
    obtain ⟨c, got, hph, rfl⟩ := step_enter.mp hstep
    exact h.enter hspec hc hph
  | exec t =>
    obtain ⟨c, held, p, m, q, hph, hnext, rfl⟩ := step_exec.mp hstep
    exact ⟨a, rfl, h.exec hc hph hnext⟩
  | finish t =>
    obtain ⟨c, held, r, hph, rfl⟩ := step_finish.mp hstep
    refine ⟨a, rfl, (h.go (v := .done c r) rfl ?_ ?_).of_stutter ?_⟩
    · rw [hph]; rfl
    · rw [hph]; rfl
    · rw [h.status t, hph]; rfl
  | respond t c r =>
    obtain ⟨hph, rfl⟩ := step_respond.mp hstep
    have hpoint : Atomic.step spec a (.respond t c r) = some (a.go t .idle) :=
      Atomic.step_respond.mpr ⟨by rw [h.status t, hph]; rfl, rfl⟩
    exact ⟨_, hpoint, h.go rfl (by rw [hph]; rfl) (by rw [hph]; rfl)⟩

/-- Every run from a state that refines an atomic one is a run of the atomic system. -/
theorem refines_run (hspec : ∀ c m, (code c).body.run m = spec c m) {ls : List (Label τ ι κ ρ)}
    (hc : Coherent code s) (h : Refines s a) (hrun : run (step code) s ls = some s') :
    ∃ a', run (Atomic.step spec) a (ls.filterMap Label.point) = some a' ∧ Refines s' a' := by
  induction ls generalizing s a with
  | nil =>
    obtain rfl := Option.some.inj hrun
    exact ⟨a, rfl, h⟩
  | cons l ls ih =>
    obtain ⟨u, hu, hrest⟩ := run_cons_eq_some.mp hrun
    obtain ⟨b, hb, hub⟩ := refines_step hspec hc h hu
    obtain ⟨a', ha', hs'⟩ := ih (coherent_step hc hu) hub hrest
    refine ⟨a', ?_, hs'⟩
    cases hpoint : l.point with
    | none =>
      rw [hpoint] at hb
      obtain rfl := Option.some.inj hb
      rw [List.filterMap_cons_none hpoint]
      exact ha'
    | some q =>
      rw [hpoint] at hb
      have hstep : Atomic.step spec a q = some b := hb
      rw [List.filterMap_cons_some hpoint, run_cons_some hstep]
      exact ha'

/-- **Linearizability.** Whatever the threads call and however their moves interleave,
the run is a run of the atomic system: the client sees the same calls and the same
results in the same order, each call takes effect at one moment between the two, and
when no call is in progress the cells are the same. -/
theorem linearizable (hspec : ∀ c m, (code c).body.run m = spec c m) {m : ι → α}
    {ls : List (Label τ ι κ ρ)} (hrun : run (step code) (State.initial m) ls = some s) :
    ∃ a, run (Atomic.step spec) (Atomic.initial m) (ls.filterMap Label.point) = some a ∧
      (ls.filterMap Label.point).filterMap Point.event = ls.filterMap Label.event ∧
      Coherent code s ∧ Refines s a ∧ (s.Quiescent → a.mem = s.mem) := by
  have hc : Coherent code s := coherent_run (coherent_initial code m) hrun
  obtain ⟨a, ha, href⟩ := refines_run hspec (coherent_initial code m) (refines_initial m) hrun
  exact ⟨a, ha, trace_point ls, hc, href, href.quiescent hc⟩

/-! ## In the middle of a run -/

theorem respects_step {r : α → α → Prop} (hcode : ∀ c, (code c).body.Respects r)
    {l : Label τ ι κ ρ} (h : ∀ u, (s.phase u).Respects r) (hstep : step code s l = some s') :
    ∀ u, (s'.phase u).Respects r := by
  cases l with
  | invoke t c =>
    obtain ⟨-, rfl⟩ := step_invoke.mp hstep
    exact respects_go h trivial
  | lock t i =>
    obtain ⟨c, todo, got, -, -, -, rfl⟩ := step_lock.mp hstep
    exact respects_go h trivial
  | unlock t i =>
    obtain ⟨c, todo, got, -, -, rfl⟩ | ⟨c, b, held, -, -, rfl⟩ := step_unlock.mp hstep
    · exact respects_go h trivial
    · exact respects_go h trivial
  | enter t =>
    obtain ⟨c, got, -, rfl⟩ := step_enter.mp hstep
    exact respects_go h (hcode c)
  | exec t =>
    obtain ⟨c, held, p, m, q, hph, hnext, rfl⟩ := step_exec.mp hstep
    have hp := h t
    rw [hph] at hp
    exact respects_go h (Prog.respects_next hp hnext)
  | finish t =>
    obtain ⟨c, held, b, -, rfl⟩ := step_finish.mp hstep
    exact respects_go h trivial
  | respond t c b =>
    obtain ⟨-, rfl⟩ := step_respond.mp hstep
    exact respects_go h trivial

/-- In the middle of a run each cell is behind the cell of the atomic system, in any
preorder that the assignments respect. -/
theorem lags {r : α → α → Prop} [IsPreorder α r] (hcode : ∀ c, (code c).body.Respects r)
    {m : ι → α} {ls : List (Label τ ι κ ρ)}
    (hrun : run (step code) (State.initial m) ls = some s) (href : Refines s a)
    (hc : Coherent code s) (i : ι) : r (s.mem i) (a.mem i) := by
  have hrest : ∀ u, (s.phase u).Respects r :=
    run_invariant (I := fun s => ∀ u, (s.phase u).Respects r)
      (fun _ _ _ h hstep => respects_step hcode h hstep) (fun _ => trivial) hrun
  cases hi : s.locked i with
  | false =>
    rw [href.free i hi]
    exact refl_of r _
  | true =>
    obtain ⟨t, ht⟩ := (hc.owned.locked_iff i).mp hi
    rw [href.held t i ht]
    have hp := hrest t
    cases hph : s.phase t with
    | inside c held p =>
      rw [hph] at hp
      exact Prog.run_respects hp s.mem i
    | _ => exact refl_of r _

end Simulation

end Locks

end Lib
