import LomiriApi.Lib.Locks
import Mathlib.Data.Fintype.Basic

/-!
# Calls can always be completed

No call ever has to wait for something that cannot happen: from every state that the
threads can get into, each call in progress can be brought to its end, without any
thread calling anew.

- `Reaches`: a run in which no thread calls.
- `exists_put_down`: whoever holds a mutex can put it down.
- `exists_all_taken`, `exists_left`: a thread can get all its mutexes, and come back
  from its section.
- `can_complete`, `can_complete_all`: hence one call, and all of them, can return.
-/

namespace Lib

open scoped List

namespace Locks

variable {τ ι α κ ρ : Type}

/-- The move starts a call. Such moves are left out when calls in progress are brought to
their ends. -/
def Label.isInvoke : Label τ ι κ ρ → Bool
  | .invoke _ _ => true
  | _ => false

theorem idle_go [DecidableEq τ] {s : State τ ι α κ ρ} {t v : τ} {ph : Phase ι α κ ρ}
    {m : ι → α} {locked : ι → Bool}
    (hv : s.phase v = .idle) (ht : s.phase t ≠ .idle) :
    ((⟨m, locked, s.phase⟩ : State τ ι α κ ρ).go t ph).phase v = .idle := by
  have hne : v ≠ t := fun h => ht (h ▸ hv)
  show Function.update s.phase t ph v = .idle
  rw [Function.update_of_ne hne, hv]

variable [DecidableEq τ] [DecidableEq ι] [DecidableEq κ] [DecidableEq ρ]
  {code : κ → Section ι α ρ} {s s' u : State τ ι α κ ρ} {t : τ}

/-- A run from `s` to `s'` in which no thread calls. -/
abbrev Reaches (code : κ → Section ι α ρ) (s s' : State τ ι α κ ρ) : Prop :=
  Leads (step code) (fun l => l.isInvoke = false) s s'

theorem Reaches.head {l : Label τ ι κ ρ} (hl : l.isInvoke = false)
    (hstep : step code s l = some u) (h : Reaches code u s') : Reaches code s s' :=
  Leads.head hl hstep h

theorem Reaches.single {l : Label τ ι κ ρ} (hl : l.isInvoke = false)
    (hstep : step code s l = some s') : Reaches code s s' := Leads.single hl hstep

theorem Reaches.coherent (h : Reaches code s s') (hc : Coherent code s) : Coherent code s' :=
  h.invariant (fun _ _ _ _ hc hstep => coherent_step hc hstep) hc

/-! ## A thread that is not in a call stays out of it -/

theorem idle_step {l : Label τ ι κ ρ} (hl : l.isInvoke = false) (hstep : step code s l = some s')
    {v : τ} (hv : s.phase v = .idle) : s'.phase v = .idle := by
  cases l with
  | invoke t c => cases hl
  | lock t i =>
    obtain ⟨c, todo, got, hph, -, -, rfl⟩ := step_lock.mp hstep
    exact idle_go hv (by simp [hph])
  | unlock t i =>
    obtain ⟨c, todo, got, hph, -, rfl⟩ | ⟨c, r, held, hph, -, rfl⟩ := step_unlock.mp hstep
    · exact idle_go hv (by simp [hph])
    · exact idle_go hv (by simp [hph])
  | enter t =>
    obtain ⟨c, got, hph, rfl⟩ := step_enter.mp hstep
    exact idle_go hv (by simp [hph])
  | exec t =>
    obtain ⟨c, held, p, m, q, hph, -, rfl⟩ := step_exec.mp hstep
    exact idle_go hv (by simp [hph])
  | finish t =>
    obtain ⟨c, held, r, hph, rfl⟩ := step_finish.mp hstep
    exact idle_go hv (by simp [hph])
  | respond t c r =>
    obtain ⟨hph, rfl⟩ := step_respond.mp hstep
    exact idle_go hv (by simp [hph])

theorem Reaches.idle (h : Reaches code s s') {v : τ} (hv : s.phase v = .idle) :
    s'.phase v = .idle :=
  h.invariant (I := fun s => s.phase v = .idle) (fun _ _ _ hl hv hstep => idle_step hl hstep hv) hv

/-! ## The stages of a call -/

/-- Thread `t` can come to the end of its section, and nothing happens to the other threads
and to the mutexes on the way. Inside a section nothing is waited for. -/
def CanLeave (code : κ → Section ι α ρ) (s : State τ ι α κ ρ) (t : τ) (c : κ) (held : List ι) :
    Prop :=
  ∃ s' r, Reaches code s s' ∧ s'.phase = Function.update s.phase t (.leaving c r held) ∧
    s'.locked = s.locked

/-- One statement. -/
theorem CanLeave.of_next {c : κ} {held : List ι} {p q : Prog ι α ρ} {m : ι → α}
    (hph : s.phase t = .inside c held p) (hnext : p.next s.mem = some (m, q))
    (h : CanLeave code ((⟨m, s.locked, s.phase⟩ : State τ ι α κ ρ).go t (.inside c held q))
      t c held) : CanLeave code s t c held := by
  obtain ⟨s', r, hreach, hphase, hlocked⟩ := h
  have hstep : step code s (.exec t) = some _ := step_exec.mpr ⟨c, held, p, m, q, hph, hnext, rfl⟩
  refine ⟨s', r, hreach.head (l := .exec t) rfl hstep, ?_, hlocked⟩
  rw [hphase]
  exact Function.update_idem _ _ s.phase

/-- A thread in its section can execute the rest of the body. -/
theorem canLeave {c : κ} {held : List ι} {p : Prog ι α ρ} (hph : s.phase t = .inside c held p) :
    CanLeave code s t c held := by
  induction p generalizing s with
  | ret r =>
    have hstep : step code s (.finish t) = some _ := step_finish.mpr ⟨c, held, r, hph, rfl⟩
    exact ⟨_, r, Reaches.single (l := .finish t) rfl hstep, rfl, rfl⟩
  | read i k ih => exact CanLeave.of_next hph rfl (ih _ (Function.update_self t _ s.phase))
  | write i f k ih => exact CanLeave.of_next hph rfl (ih (Function.update_self t _ s.phase))

/-- A thread that leaves its section can put everything down and return. -/
theorem exists_left {c : κ} {r : ρ} {held : List ι} (hph : s.phase t = .leaving c r held) :
    ∃ s', Reaches code s s' ∧ s'.phase t = .idle := by
  induction held generalizing s with
  | nil =>
    have hstep : step code s (.respond t c r) = some _ := step_respond.mpr ⟨hph, rfl⟩
    exact ⟨_, Reaches.single (l := .respond t c r) rfl hstep,
      Function.update_self t _ s.phase⟩
  | cons i held ih =>
    have hstep : step code s (.unlock t i) = some _ :=
      step_unlock.mpr (.inr ⟨c, r, i :: held, hph, List.mem_cons_self, rfl⟩)
    rw [List.erase_cons_head] at hstep
    obtain ⟨s', hreach, hidle⟩ := ih (State.go_phase_self _ t (.leaving c r held))
    exact ⟨s', hreach.head (l := .unlock t i) rfl hstep, hidle⟩

/-- Whoever holds the mutex `i` can put it down, and no other thread moves. A thread that
waits for others puts it down by backing off. -/
theorem exists_put_down (hc : Coherent code s) {i : ι} (hi : s.locked i = true) :
    ∃ v s', i ∈ (s.phase v).held ∧ Reaches code s s' ∧ s'.locked i = false ∧
      ∀ u ≠ v, s'.phase u = s.phase u := by
  obtain ⟨v, hv⟩ := (hc.owned.locked_iff i).mp hi
  refine ⟨v, ?_⟩
  cases hph : s.phase v with
  | idle =>
    rw [hph] at hv
    cases hv
  | locking c todo got =>
    -- it is still waiting for another mutex
    rw [hph] at hv
    have hstep : step code s (.unlock v i) = some _ :=
      step_unlock.mpr (.inl ⟨c, todo, got, hph, hv, rfl⟩)
    exact ⟨_, hv, Reaches.single (l := .unlock v i) rfl hstep,
      State.setLock_locked_self _ v _ i false, fun u hu => State.go_phase_ne _ v _ hu⟩
  | inside c held p =>
    rw [hph] at hv
    obtain ⟨w, r, hreach, hphase, -⟩ : CanLeave code s v c held := canLeave hph
    have hw : w.phase v = .leaving c r held := by rw [hphase, Function.update_self]
    have hstep : step code w (.unlock v i) = some _ :=
      step_unlock.mpr (.inr ⟨c, r, held, hw, hv, rfl⟩)
    refine ⟨_, hv, hreach.trans (Reaches.single (l := .unlock v i) rfl hstep),
      State.setLock_locked_self _ v _ i false, fun u hu => ?_⟩
    show Function.update w.phase v (.leaving c r (held.erase i)) u = s.phase u
    rw [Function.update_of_ne hu, hphase, Function.update_of_ne hu]
  | leaving c r held =>
    rw [hph] at hv
    have hstep : step code s (.unlock v i) = some _ :=
      step_unlock.mpr (.inr ⟨c, r, held, hph, hv, rfl⟩)
    exact ⟨_, hv, Reaches.single (l := .unlock v i) rfl hstep,
      State.setLock_locked_self _ v _ i false, fun u hu => State.go_phase_ne _ v _ hu⟩

/-- A thread that waits for the mutex `i` can get it. -/
theorem exists_taken (hc : Coherent code s) {c : κ} {i : ι} {todo got : List ι}
    (hph : s.phase t = .locking c (i :: todo) got) :
    ∃ s', Reaches code s s' ∧ s'.phase t = .locking c todo (i :: got) := by
  -- first, whoever has the mutex puts it down
  have hfree : ∃ w, Reaches code s w ∧ w.locked i = false ∧ w.phase t = s.phase t := by
    cases hi : s.locked i with
    | false => exact ⟨s, Leads.refl s, hi, rfl⟩
    | true =>
      obtain ⟨v, w, hv, hreach, hfree, hother⟩ := exists_put_down hc hi
      have htv : t ≠ v := by
        rintro rfl
        rw [hph] at hv
        have hwf := hc.wf t
        rw [hph] at hwf
        -- the mutexes of a section are different, so the thread does not have this one
        have hnodup := hwf.nodup_iff.mpr (code c).nodup
        exact (List.nodup_append.mp hnodup).2.2 i List.mem_cons_self i hv rfl
      exact ⟨w, hreach, hfree, hother t htv⟩
  obtain ⟨w, hreach, hfree, hw⟩ := hfree
  have hstep : step code w (.lock t i) = some _ :=
    step_lock.mpr ⟨c, i :: todo, got, hw.trans hph, List.mem_cons_self, hfree, rfl⟩
  rw [List.erase_cons_head] at hstep
  exact ⟨_, hreach.trans (Reaches.single (l := .lock t i) rfl hstep),
    Function.update_self t _ w.phase⟩

/-- A thread that waits for mutexes can get them all. Each one that it lacks is freed by
its holder, while those that it has stay its own. -/
theorem exists_all_taken (hc : Coherent code s) {c : κ} {todo got : List ι}
    (hph : s.phase t = .locking c todo got) :
    ∃ s' got', Reaches code s s' ∧ s'.phase t = .locking c [] got' := by
  induction todo generalizing s got with
  | nil => exact ⟨s, got, Leads.refl s, hph⟩
  | cons i todo ih =>
    obtain ⟨w, hreach, hw⟩ := exists_taken hc hph
    obtain ⟨s', got', hreach', hs'⟩ := ih (hreach.coherent hc) hw
    exact ⟨s', got', hreach.trans hreach', hs'⟩

/-! ## Whole calls -/

theorem exists_left_of_inside {c : κ} {held : List ι} {p : Prog ι α ρ}
    (hph : s.phase t = .inside c held p) : ∃ s', Reaches code s s' ∧ s'.phase t = .idle := by
  obtain ⟨w, r, hreach, hphase, -⟩ : CanLeave code s t c held := canLeave hph
  have hw : w.phase t = .leaving c r held := by rw [hphase, Function.update_self]
  obtain ⟨s', (hreach' : Reaches code w s'), hidle⟩ := exists_left hw
  exact ⟨s', hreach.trans hreach', hidle⟩

/-- **A call in progress can return.** -/
theorem can_complete (hc : Coherent code s) (t : τ) :
    ∃ s', Reaches code s s' ∧ s'.phase t = .idle := by
  cases hph : s.phase t with
  | idle => exact ⟨s, Leads.refl s, hph⟩
  | locking c todo got =>
    obtain ⟨v, got', hreach, hv⟩ := exists_all_taken hc hph
    have hstep : step code v (.enter t) = some _ := step_enter.mpr ⟨c, got', hv, rfl⟩
    obtain ⟨s', (hreach' : Reaches code _ s'), hidle⟩ :=
      exists_left_of_inside (State.go_phase_self v t (.inside c got' (code c).body))
    exact ⟨s', hreach.trans (hreach'.head (l := .enter t) rfl hstep), hidle⟩
  | inside c held p => exact exists_left_of_inside hph
  | leaving c r held => exact exists_left hph

/-- **All calls in progress can return.** -/
theorem can_complete_all [Fintype τ] (hc : Coherent code s) :
    ∃ s', Reaches code s s' ∧ s'.Quiescent := by
  have hlist : ∀ ts : List τ, ∃ s', Reaches code s s' ∧ ∀ t ∈ ts, s'.phase t = .idle := by
    intro ts
    induction ts with
    | nil => exact ⟨s, Leads.refl s, by simp⟩
    | cons t ts ih =>
      obtain ⟨w, hreach, hts⟩ := ih
      obtain ⟨s', hreach', ht⟩ := can_complete (hreach.coherent hc) t
      refine ⟨s', hreach.trans hreach', fun v hv => ?_⟩
      rcases List.mem_cons.mp hv with rfl | hmem
      · exact ht
      · exact hreach'.idle (hts v hmem)
  obtain ⟨s', hreach, hall⟩ := hlist (Finset.univ : Finset τ).toList
  exact ⟨s', hreach, fun t => hall t (Finset.mem_toList.mpr (Finset.mem_univ t))⟩

end Locks

end Lib
