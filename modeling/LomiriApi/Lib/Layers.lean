import LomiriApi.Lib.Callbacks
import Mathlib.Algebra.Order.BigOperators.Group.Finset
import Mathlib.Data.Finset.Max
import Mathlib.Data.Fintype.Basic

/-!
# Callbacks in layers

Callbacks hold mutexes while they wait for others. There is no deadlock if the cells lie
in layers and callbacks only go down: a call takes mutexes of one layer, its rank, and
the callbacks in it make calls of lower rank.

- `Layered`: what layers demand.
- `exists_left`: a call that is in its section can come to the end of it, if no mutex of
  a lower layer is taken. The induction is on the rank, and within a rank on what is left
  of the section and of the callback.
- `exists_fewer`: among all innermost calls, take one of the lowest rank, and one that has
  its mutexes if there is any of this rank: it can return.
- `can_complete_all`: so all calls in progress can return.
-/

namespace Lib

namespace Callbacks

open Locks

variable {τ ι α κ ρ : Type}

/-- Calls take the mutexes of one layer, and callbacks only go down. It is the classical
lock order, with the exception that one call may take several mutexes of a layer at once,
by an algorithm that backs off. -/
structure Layered (R : Rules ι α κ) (code : κ → Section ι α ρ) (level : ι → Nat)
    (rank : κ → Nat) : Prop where
  locks : ∀ c, R.ok c → ∀ i ∈ (code c).locks, level i = rank c
  within : ∀ c c', R.within c c' → rank c' < rank c

/-- The call is a client's, not a callback's. -/
def isClients : Label (τ × Nat) ι κ ρ → Bool
  | .invoke (_, 0) _ => true
  | _ => false

/-- Whatever mutex is taken, it is at least in the layer `n`. Then a call of lower rank
meets no obstacle. -/
def Above (level : ι → Nat) (n : Nat) (s : State τ ι α κ ρ) : Prop :=
  ∀ v, ∀ i ∈ (s.calls.phase v).held, n ≤ level i

/-- How many calls of a thread are in progress. The sum over all threads is what decreases
on the way to the end. -/
def frames (s : State τ ι α κ ρ) (t : τ) : Nat :=
  if (call? (s.calls.phase (t, s.depth t))).isNone then 0 else s.depth t + 1

section Moves

variable {R : Rules ι α κ} {code : κ → Section ι α ρ} {callback : α → α → Script κ ρ}
  [DecidableEq τ] [DecidableEq ι] [DecidableEq κ] [DecidableEq ρ]
  {s s' u : State τ ι α κ ρ} {t : τ} {v : τ × Nat} {c : κ} {r : ρ}

/-- A run in which no client calls. -/
abbrev Reaches (code : κ → Section ι α ρ) (callback : α → α → Script κ ρ)
    (s s' : State τ ι α κ ρ) : Prop :=
  Leads (step code callback) (fun l => isClients l = false) s s'

theorem Reaches.single {l : Label (τ × Nat) ι κ ρ} (hl : isClients l = false)
    (hstep : step code callback s l = some s') : Reaches code callback s s' :=
  Leads.single hl hstep

theorem Reaches.orderly (hkept : R.Kept code callback) (hreach : Reaches code callback s s')
    (h : Orderly R code callback s) : Orderly R code callback s' := by
  refine hreach.invariant (fun _ l _ hl h hstep => orderly_step hkept h ?_ hstep) h
  cases l with
  | invoke tk c =>
    obtain ⟨t, k⟩ := tk
    cases k with
    | zero => cases hl
    | succ k => trivial
  | _ => trivial

/-- The call `v` gets to the phase `ph`, and no other call and no nesting is different
then. A call is brought forward by itself, so what is known of the others stays known. -/
structure Moves (code : κ → Section ι α ρ) (callback : α → α → Script κ ρ)
    (s s' : State τ ι α κ ρ) (v : τ × Nat) (ph : Phase ι α κ ρ) : Prop where
  reach : Reaches code callback s s'
  phase : s'.calls.phase = Function.update s.calls.phase v ph
  waiting : s'.waiting = s.waiting

theorem Moves.self {ph : Phase ι α κ ρ} (h : Moves code callback s s' v ph) :
    s'.calls.phase v = ph := by
  rw [h.phase, Function.update_self]

theorem Moves.trans {ph ph' : Phase ι α κ ρ} (h : Moves code callback s u v ph)
    (h' : Moves code callback u s' v ph') : Moves code callback s s' v ph' where
  reach := h.reach.trans h'.reach
  phase := by rw [h'.phase, h.phase, Function.update_idem]
  waiting := h'.waiting.trans h.waiting

theorem Moves.refl (s : State τ ι α κ ρ) (v : τ × Nat) :
    Moves code callback s s v (s.calls.phase v) :=
  ⟨Leads.refl s, (Function.update_eq_self v s.calls.phase).symm, rfl⟩

/-- What the others hold, and what the call holds itself. -/
theorem Moves.above {ph : Phase ι α κ ρ} {level : ι → Nat} {n : Nat}
    (h : Moves code callback s s' v ph) (hs : Above level n s) (hph : ∀ i ∈ ph.held, n ≤ level i) :
    Above level n s' := by
  intro w i hi
  rw [h.phase] at hi
  by_cases hw : w = v
  · rw [hw, Function.update_self] at hi
    exact hph i hi
  · rw [Function.update_of_ne hw] at hi
    exact hs w i hi

/-! ## Taking mutexes and putting them down -/

variable (code callback)

/-- A call whose mutexes are free can take them all. Nobody else moves meanwhile, so they
stay free. -/
theorem exists_taken {todo got : List ι} (hph : s.calls.phase v = .locking c todo got)
    (hfree : ∀ i ∈ todo, s.calls.locked i = false) (hnodup : todo.Nodup) :
    ∃ s' got', Moves code callback s s' v (.locking c [] got') := by
  induction todo generalizing s got with
  | nil => exact ⟨s, got, hph ▸ Moves.refl s v⟩
  | cons i todo ih =>
    have hstep : step code callback s (.lock v i) = some _ := move_eq_some.mpr
      ⟨_, step_lock.mpr ⟨c, i :: todo, got, hph, List.mem_cons_self,
        hfree i List.mem_cons_self, rfl⟩, rfl⟩
    rw [List.erase_cons_head] at hstep
    obtain ⟨hi, hnodup⟩ := List.nodup_cons.mp hnodup
    have hone : Moves code callback s _ v (.locking c todo (i :: got)) :=
      ⟨Reaches.single (l := .lock v i) rfl hstep, rfl, rfl⟩
    have hfree' : ∀ j ∈ todo, Function.update s.calls.locked i true j = false := by
      intro j hj
      rw [Function.update_of_ne (ne_of_mem_of_not_mem hj hi)]
      exact hfree j (List.mem_cons_of_mem i hj)
    obtain ⟨s', got', hrest⟩ := ih hone.self hfree' hnodup
    exact ⟨s', got', hone.trans hrest⟩

/-- A call that is on its way out can put down all mutexes. -/
theorem exists_put_down {held : List ι} (hph : s.calls.phase v = .leaving c r held) :
    ∃ s', Moves code callback s s' v (.leaving c r []) := by
  induction held generalizing s with
  | nil => exact ⟨s, hph ▸ Moves.refl s v⟩
  | cons i held ih =>
    have hstep : step code callback s (.unlock v i) = some _ := move_eq_some.mpr
      ⟨_, step_unlock.mpr (.inr ⟨c, r, i :: held, hph, List.mem_cons_self, rfl⟩), rfl⟩
    rw [List.erase_cons_head] at hstep
    have hone : Moves code callback s _ v (.leaving c r held) :=
      ⟨Reaches.single (l := .unlock v i) rfl hstep, rfl, rfl⟩
    obtain ⟨s', hrest⟩ := ih hone.self
    exact ⟨s', hone.trans hrest⟩

/-- A call that waits for a mutex can put down those that it has. This is what `std::lock`
does, and why mutexes of one layer need no order. -/
theorem exists_backed_off {todo got : List ι} (hph : s.calls.phase v = .locking c todo got) :
    ∃ s' todo', Moves code callback s s' v (.locking c todo' []) := by
  induction got generalizing s todo with
  | nil => exact ⟨s, todo, hph ▸ Moves.refl s v⟩
  | cons i got ih =>
    have hstep : step code callback s (.unlock v i) = some _ := move_eq_some.mpr
      ⟨_, step_unlock.mpr (.inl ⟨c, todo, i :: got, hph, List.mem_cons_self, rfl⟩), rfl⟩
    rw [List.erase_cons_head] at hstep
    have hone : Moves code callback s _ v (.locking c (i :: todo) got) :=
      ⟨Reaches.single (l := .unlock v i) rfl hstep, rfl, rfl⟩
    obtain ⟨s', todo', hrest⟩ := ih hone.self
    exact ⟨s', todo', hone.trans hrest⟩

end Moves

/-! ## One call, with the callbacks in it -/

section Calls

variable {R : Rules ι α κ} {code : κ → Section ι α ρ} {callback : α → α → Script κ ρ}
  {level : ι → Nat} {rank : κ → Nat}
  [DecidableEq τ] [DecidableEq ι] [DecidableEq κ] [DecidableEq ρ]
  {s s' : State τ ι α κ ρ} {t : τ} {c : κ} {n : Nat}

omit [DecidableEq τ] [DecidableEq ι] [DecidableEq κ] [DecidableEq ρ] in
/-- What a call takes is free, if nothing but higher layers is taken. -/
theorem Above.free (hs : Above level n s) (hc : Coherent code s.calls) {i : ι} (hi : level i < n) :
    s.calls.locked i = false := by
  refine Bool.eq_false_iff.mpr fun hlocked => ?_
  obtain ⟨v, hv⟩ := (hc.owned.locked_iff i).mp hlocked
  have hle := hs v i hv
  omega

/-- A call in its section, of a rank below `n`, can come to the end of it. -/
def CanLeave (R : Rules ι α κ) (code : κ → Section ι α ρ) (callback : α → α → Script κ ρ)
    (level : ι → Nat) (rank : κ → Nat) (t : τ) (n : Nat) : Prop :=
  ∀ (s : State τ ι α κ ρ) (c : κ) (held : List ι) (p : Prog ι α ρ), Orderly R code callback s →
    s.calls.phase (t, s.depth t) = .inside c held p → rank c < n → Above level (rank c) s →
    ∃ s' r, Moves code callback s s' (t, s.depth t) (.leaving c r held)

/-- A call that has taken no mutex yet can come back from its section. -/
theorem exists_called (hkept : R.Kept code callback) (hl : Layered R code level rank)
    (hleave : CanLeave R code callback level rank t n) (h : Orderly R code callback s)
    {todo : List ι} (hph : s.calls.phase (t, s.depth t) = .locking c todo []) (hc : rank c < n)
    (hs : Above level (rank c + 1) s) :
    ∃ s' r, Moves code callback s s' (t, s.depth t) (.leaving c r []) := by
  have hgood := (h.stack t).good (s.depth t)
  have hwf := h.coherent.wf (t, s.depth t)
  rw [hph] at hgood hwf
  have hok : R.ok c := hgood
  have htodo : todo.Perm (code c).locks := by simpa [Phase.Wf] using hwf
  have hfree : ∀ i ∈ todo, s.calls.locked i = false := fun i hi =>
    hs.free h.coherent (Nat.lt_succ_of_le (hl.locks c hok i (htodo.subset hi)).le)
  obtain ⟨s₁, got, htake⟩ := exists_taken code callback hph hfree
    (htodo.nodup_iff.mpr (code c).nodup)
  have hdepth : ∀ {u : State τ ι α κ ρ}, u.waiting = s.waiting → u.depth t = s.depth t :=
    fun hu => by rw [State.depth, hu, State.depth]
  have hstep : step code callback s₁ (.enter (t, s.depth t)) = some _ :=
    move_eq_some.mpr ⟨_, step_enter.mpr ⟨c, got, htake.self, rfl⟩, rfl⟩
  have henter : Moves code callback s₁ _ (t, s.depth t) (.inside c got (code c).body) :=
    ⟨Reaches.single (l := .enter (t, s.depth t)) rfl hstep, rfl, rfl⟩
  have hinside := htake.trans henter
  have h₂ := hinside.reach.orderly hkept h
  have hheld : got ⊆ (code c).locks := by
    have hgood := (h₂.stack t).good (s.depth t)
    rw [hinside.self] at hgood
    exact hgood.2.1
  have habove : Above level (rank c) _ :=
    hinside.above (fun v i hi => Nat.le_of_succ_le (hs v i hi))
      (fun i hi => (hl.locks c hok i (hheld hi)).ge)
  obtain ⟨s₃, r, hleft⟩ := hleave _ c got (code c).body h₂
    (by rw [hdepth hinside.waiting]; exact hinside.self) hc habove
  rw [hdepth hinside.waiting] at hleft
  obtain ⟨s₄, hdown⟩ := exists_put_down code callback hleft.self
  exact ⟨s₄, r, (hinside.trans hleft).trans hdown⟩

/-- A callback gets its answer: one call less is in progress. -/
theorem exists_popped {next : ρ → Script κ ρ} {rest : List (ρ → Script κ ρ)} {r : ρ}
    (hwaiting : s.waiting t = next :: rest)
    (hph : s.calls.phase (t, rest.length + 1) = .leaving c r []) :
    ∃ s', Reaches code callback s s' ∧
      s'.calls.phase = Function.update s.calls.phase (t, rest.length + 1) .idle ∧
      s'.waiting = Function.update s.waiting t rest ∧ s'.script t = next r := by
  have hstep : step code callback s (.respond (t, rest.length + 1) c r) = some _ :=
    step_answer.mpr ⟨next, rest, _, hwaiting, rfl, step_respond.mpr ⟨hph, rfl⟩, rfl⟩
  exact ⟨_, Reaches.single (l := .respond (t, rest.length + 1) c r) rfl hstep, rfl, rfl,
    Function.update_self _ _ _⟩

/-- A callback calls, and gets its answer. -/
theorem exists_answered (hkept : R.Kept code callback) (hl : Layered R code level rank)
    (hleave : CanLeave R code callback level rank t n) (h : Orderly R code callback s)
    {next : ρ → Script κ ρ} (hscript : s.script t = .call c next) (hc : rank c < n)
    (hs : Above level n s) :
    ∃ s' r, Reaches code callback s s' ∧ s'.calls.phase = s.calls.phase ∧
      s'.waiting = s.waiting ∧ s'.script t = next r := by
  have hidle : s.calls.phase (t, s.depth t + 1) = .idle :=
    (h.stack t).beyond _ (Nat.lt_succ_self _)
  obtain ⟨u, hreach, hphase, hwaiting⟩ : ∃ u, Reaches code callback s u ∧
      u.calls.phase = Function.update s.calls.phase (t, s.depth t + 1)
        (.locking c (code c).locks []) ∧
      u.waiting = Function.update s.waiting t (next :: s.waiting t) := by
    have hstep : step code callback s (.invoke (t, s.depth t + 1) c) = some _ :=
      step_callback.mpr ⟨next, _, hscript, rfl, step_invoke.mpr ⟨hidle, rfl⟩, rfl⟩
    exact ⟨_, Reaches.single (l := .invoke (t, s.depth t + 1) c) rfl hstep, rfl, rfl⟩
  have hdepth : u.depth t = s.depth t + 1 := by
    rw [State.depth, hwaiting, Function.update_self]
    rfl
  have hph : u.calls.phase (t, u.depth t) = .locking c (code c).locks [] := by
    rw [hphase, hdepth, Function.update_self]
  -- the new call has no mutex yet
  have habove : Above level (rank c + 1) u := by
    intro v i hi
    rw [hphase] at hi
    by_cases hv : v = (t, s.depth t + 1)
    · rw [hv, Function.update_self] at hi
      cases hi
    · rw [Function.update_of_ne hv] at hi
      exact hc.trans_le (hs v i hi)
  obtain ⟨v, r, hleft⟩ := exists_called hkept hl hleave (hreach.orderly hkept h) hph hc habove
  have hvwaiting : v.waiting t = next :: s.waiting t := by
    rw [hleft.waiting, hwaiting, Function.update_self]
  have hvph : v.calls.phase (t, (s.waiting t).length + 1) = .leaving c r [] := hdepth ▸ hleft.self
  obtain ⟨s', hback, hphase', hwaiting', hscript'⟩ := exists_popped hvwaiting hvph
  refine ⟨s', r, (hreach.trans hleft.reach).trans hback, ?_, ?_, hscript'⟩
  · calc s'.calls.phase
        = Function.update v.calls.phase (t, s.depth t + 1) .idle := hphase'
      _ = Function.update s.calls.phase (t, s.depth t + 1) .idle := by
        rw [hleft.phase, hdepth, hphase, Function.update_idem, Function.update_idem]
      _ = s.calls.phase := by rw [← hidle, Function.update_eq_self]
  · rw [hwaiting', hleft.waiting, hwaiting, Function.update_idem, Function.update_eq_self]

/-- A callback in a call of rank `n` can come to its end; then everything is where it was. -/
theorem exists_script_done (hkept : R.Kept code callback) (hl : Layered R code level rank)
    (hleave : CanLeave R code callback level rank t n) (h : Orderly R code callback s)
    {held : List ι} {p : Prog ι α ρ} (hph : s.calls.phase (t, s.depth t) = .inside c held p)
    (hc : rank c = n) (hs : Above level n s) :
    ∃ s', Moves code callback s s' (t, s.depth t) (.inside c held p) ∧ s'.script t = .done := by
  induction hscript : s.script t generalizing s with
  | done => exact ⟨s, hph ▸ Moves.refl s _, hscript⟩
  | call c' next ih =>
    obtain ⟨c₀, held₀, p₀, hph₀, hall⟩ := (h.stack t).script.resolve_left (by rw [hscript]; nofun)
    obtain ⟨rfl, -, -⟩ := Phase.inside.inj (hph₀.symm.trans hph)
    rw [hscript] at hall
    obtain ⟨u, r, hreach, hphase, hwaiting, hnext⟩ := exists_answered hkept hl hleave h hscript
      (hc ▸ hl.within _ _ hall.1) hs
    have hdepth : u.depth t = s.depth t := by rw [State.depth, hwaiting, State.depth]
    have hph' : u.calls.phase (t, u.depth t) = .inside c₀ held p := by rw [hphase, hdepth, hph]
    have habove : Above level n u := by
      rw [Above, hphase]
      exact hs
    obtain ⟨s', hmoves, hdone⟩ := ih r (hreach.orderly hkept h) hph' habove hnext
    rw [hdepth] at hmoves
    have hback : Moves code callback s u (t, s.depth t) (.inside c₀ held p) :=
      ⟨hreach, by rw [hphase, ← hph, Function.update_eq_self], hwaiting⟩
    exact ⟨s', hback.trans hmoves, hdone⟩

/-- One statement, when the callback of the one before is done. -/
theorem exists_executed {held : List ι} {p q : Prog ι α ρ} {m : ι → α}
    (hph : s.calls.phase (t, s.depth t) = .inside c held p) (hdone : s.script t = .done)
    (hnext : p.next s.calls.mem = some (m, q)) :
    ∃ s', Moves code callback s s' (t, s.depth t) (.inside c held q) := by
  have hstep : step code callback s (.exec (t, s.depth t)) = some _ :=
    step_exec.mpr ⟨_, rfl, hdone, Locks.step_exec.mpr ⟨c, held, p, m, q, hph, hnext, rfl⟩, rfl⟩
  exact ⟨_, Reaches.single (l := .exec (t, s.depth t)) rfl hstep, rfl, rfl⟩

theorem CanLeave.mono {n' : Nat} (h : CanLeave R code callback level rank t n) (hn : n' ≤ n) :
    CanLeave R code callback level rank t n' :=
  fun s c held p hs hph hc => h s c held p hs hph (hc.trans_le hn)

/-- A call in its section is as before, but for what it has left to do. -/
structure Continues (R : Rules ι α κ) (code : κ → Section ι α ρ) (callback : α → α → Script κ ρ)
    (level : ι → Nat) (rank : κ → Nat) (s s' : State τ ι α κ ρ) (t : τ) (c : κ) (held : List ι)
    (p : Prog ι α ρ) : Prop where
  moves : Moves code callback s s' (t, s.depth t) (.inside c held p)
  depth : s'.depth t = s.depth t
  orderly : Orderly R code callback s'
  above : Above level (rank c) s'

theorem Continues.phase {held : List ι} {p : Prog ι α ρ}
    (h : Continues R code callback level rank s s' t c held p) :
    s'.calls.phase (t, s'.depth t) = .inside c held p := by
  rw [h.depth]
  exact h.moves.self

theorem Moves.continues {held : List ι} {p q : Prog ι α ρ} (hkept : R.Kept code callback)
    (hmoves : Moves code callback s s' (t, s.depth t) (.inside c held q))
    (h : Orderly R code callback s) (hph : s.calls.phase (t, s.depth t) = .inside c held p)
    (hs : Above level (rank c) s) : Continues R code callback level rank s s' t c held q where
  moves := hmoves
  depth := by rw [State.depth, hmoves.waiting, State.depth]
  orderly := hmoves.reach.orderly hkept h
  above := hmoves.above hs fun i hi => hs (t, s.depth t) i (by rw [hph]; exact hi)

/-- One statement, after the callback of the one before. -/
theorem exists_continued (hkept : R.Kept code callback) (hl : Layered R code level rank)
    (hleave : CanLeave R code callback level rank t (rank c)) (h : Orderly R code callback s)
    {held : List ι} {p : Prog ι α ρ} (hph : s.calls.phase (t, s.depth t) = .inside c held p)
    (hs : Above level (rank c) s) (hnext : ∀ m, (p.next m).isSome) :
    ∃ s' m m' q, p.next m = some (m', q) ∧
      Continues R code callback level rank s s' t c held q := by
  obtain ⟨u, hscript, hdone⟩ := exists_script_done hkept hl hleave h hph rfl hs
  have hu := hscript.continues hkept h hph hs
  obtain ⟨⟨m', q⟩, hq⟩ := Option.isSome_iff_exists.mp (hnext u.calls.mem)
  obtain ⟨s', hexec⟩ := exists_executed hu.phase hdone hq
  rw [hu.depth] at hexec
  exact ⟨s', _, m', q, hq, (hscript.trans hexec).continues hkept h hph hs⟩

/-- **A call in its section can come to the end of it**, if no mutex of a lower layer is
taken. -/
theorem canLeave (hkept : R.Kept code callback) (hl : Layered R code level rank) (t : τ) (n : Nat) :
    CanLeave R code callback level rank t n := by
  induction n with
  | zero => exact fun s c held p _ _ hc => absurd hc (Nat.not_lt_zero _)
  | succ n ih =>
    intro s c held p h hph hc hs
    have hlower := ih.mono (Nat.le_of_lt_succ hc)
    induction p generalizing s with
    | ret r =>
      obtain ⟨u, hscript, hdone⟩ := exists_script_done hkept hl hlower h hph rfl hs
      have hu := hscript.continues hkept h hph hs
      have hstep : step code callback u (.finish (t, u.depth t)) = some _ := step_finish.mpr
        ⟨_, rfl, hdone, Locks.step_finish.mpr ⟨c, held, r, hu.phase, rfl⟩, rfl⟩
      have hfinish : Moves code callback u _ (t, u.depth t) (.leaving c r held) :=
        ⟨Reaches.single (l := .finish (t, u.depth t)) rfl hstep, rfl, rfl⟩
      rw [hu.depth] at hfinish
      exact ⟨_, r, hscript.trans hfinish⟩
    | read i k ihp =>
      obtain ⟨u, m, m', q, hq, hu⟩ := exists_continued hkept hl hlower h hph hs fun _ => rfl
      obtain ⟨rfl, rfl⟩ := Prod.mk.inj (Option.some.inj hq)
      obtain ⟨s', r, hrest⟩ := ihp (m i) u hu.orderly hu.phase hu.above
      rw [hu.depth] at hrest
      exact ⟨s', r, hu.moves.trans hrest⟩
    | write i f k ihp =>
      obtain ⟨u, m, m', q, hq, hu⟩ := exists_continued hkept hl hlower h hph hs fun _ => rfl
      obtain ⟨rfl, rfl⟩ := Prod.mk.inj (Option.some.inj hq)
      obtain ⟨s', r, hrest⟩ := ihp u hu.orderly hu.phase hu.above
      rw [hu.depth] at hrest
      exact ⟨s', r, hu.moves.trans hrest⟩

end Calls

/-! ## All threads -/

section Threads

variable {R : Rules ι α κ} {code : κ → Section ι α ρ} {callback : α → α → Script κ ρ}
  {level : ι → Nat} {rank : κ → Nat} {s s' : State τ ι α κ ρ} {t : τ} {c : κ} {n : Nat}

/-- No call of the thread is in progress. -/
theorem idle_of_frames (h : Orderly R code callback s) (hzero : frames s t = 0) (k : Nat) :
    s.calls.phase (t, k) = .idle := by
  rw [frames] at hzero
  split at hzero
  · rename_i hcall
    have hidle : s.calls.phase (t, s.depth t) = .idle := by
      cases hph : s.calls.phase (t, s.depth t) with
      | idle => rfl
      | _ =>
        rw [hph] at hcall
        cases hcall
    have hnil : s.waiting t = [] := by
      by_contra hne
      exact (h.stack t).busy hne hidle
    rcases Nat.eq_zero_or_pos k with rfl | hk
    · rwa [State.depth, hnil] at hidle
    · exact (h.stack t).beyond k (by rwa [hnil])
  · cases hzero

/-- The other threads are in as many calls as before. -/
theorem frames_of_ne [DecidableEq τ] {k : Nat} {ph : Phase ι α κ ρ} {u : τ}
    (hphase : s'.calls.phase = Function.update s.calls.phase (t, k) ph)
    (hwaiting : s'.waiting u = s.waiting u) (hu : u ≠ t) : frames s' u = frames s u := by
  rw [frames, frames, State.depth, State.depth, hwaiting, hphase,
    Function.update_of_ne fun heq => hu (Prod.mk.inj heq).1]

/-- What a call holds is in the layer of the call. So a mutex tells the rank of its
holder. -/
theorem level_of_held (h : Orderly R code callback s) (hl : Layered R code level rank)
    {v : τ × Nat} {i : ι} (hi : i ∈ (s.calls.phase v).held) :
    ∃ c, call? (s.calls.phase v) = some c ∧ level i = rank c := by
  obtain ⟨t, k⟩ := v
  have hgood := (h.stack t).good k
  have hwf := h.coherent.wf (t, k)
  cases hph : s.calls.phase (t, k) with
  | idle =>
    rw [hph] at hi
    cases hi
  | locking c todo got =>
    rw [hph] at hi hgood hwf
    exact ⟨c, rfl, hl.locks c hgood i (hwf.subset (List.mem_append_right todo hi))⟩
  | inside c held p =>
    rw [hph] at hi hgood
    exact ⟨c, rfl, hl.locks c hgood.1 i (hgood.2.1 hi)⟩
  | leaving c r held =>
    rw [hph] at hi hgood
    exact ⟨c, rfl, hl.locks c hgood.1 i (hgood.2 hi)⟩

/-- The innermost call has the lowest rank. So the lowest rank of all is found at an
innermost call, which can move. -/
theorem Stack.rank_lt {phase : Nat → Phase ι α κ ρ} {script : Script κ ρ}
    {waiting : List (ρ → Script κ ρ)} (h : Stack R code callback phase script waiting)
    (hl : Layered R code level rank) {k : Nat} (hk : k < waiting.length)
    (hcall : call? (phase k) = some c) :
    ∃ c', call? (phase waiting.length) = some c' ∧ rank c' < rank c := by
  induction hgap : waiting.length - k generalizing k c with
  | zero => omega
  | succ gap ih =>
    obtain ⟨next, rest, hsuffix, rfl⟩ := exists_waiting hk
    obtain ⟨c₀, held, p, hph, -, c', hcall', hwithin⟩ := h.outer next rest hsuffix
    rw [hph] at hcall
    obtain rfl := Option.some.inj hcall
    have hlt := hl.within c₀ c' hwithin
    rcases Nat.lt_or_eq_of_le (Nat.succ_le_of_lt hk) with hlt' | heq
    · obtain ⟨c'', hcall'', hlt''⟩ := ih hlt' hcall' (by omega)
      exact ⟨c'', hcall'', hlt''.trans hlt⟩
    · exact ⟨c', heq ▸ hcall', hlt⟩

/-! ### The lowest rank first -/

/-- A call that waits for mutexes has none, and so it is in nobody's way. -/
def Settled (s : State τ ι α κ ρ) (t : τ) : Prop :=
  ∀ c todo got, s.calls.phase (t, s.depth t) = .locking c todo got → got = []

/-- Calls of lower rank first, and of the same rank those that have their mutexes. The call of
least weight waits for none of the others. -/
def weight (rank : κ → Nat) (s : State τ ι α κ ρ) (t : τ) : Nat :=
  match s.calls.phase (t, s.depth t) with
  | .idle => 0
  | .locking c _ _ => 2 * rank c + 1
  | .inside c _ _ => 2 * rank c
  | .leaving c _ _ => 2 * rank c

/-- A thread that holds a mutex is in a call of no higher rank, and if it is of the same, the
call has its mutexes. -/
theorem weight_le (h : Orderly R code callback s) (hl : Layered R code level rank)
    (hsettled : Settled s t) {k : Nat} {i : ι} (hi : i ∈ (s.calls.phase (t, k)).held) :
    0 < frames s t ∧ weight rank s t ≤ 2 * level i := by
  obtain ⟨c, hcall, hlevel⟩ := level_of_held h hl hi
  have hstack := h.stack t
  rcases Nat.lt_trichotomy k (s.depth t) with hlt | rfl | hgt
  · -- an outer call has a higher rank than the innermost one
    obtain ⟨c', hcall', hrank⟩ := hstack.rank_lt hl hlt hcall
    change call? (s.calls.phase (t, s.depth t)) = some c' at hcall'
    constructor
    · rw [frames, hcall']
      exact Nat.succ_pos _
    · rw [weight, hlevel]
      cases hph : s.calls.phase (t, s.depth t) with
      | idle => exact Nat.zero_le _
      | _ =>
        rw [hph] at hcall'
        obtain rfl := Option.some.inj hcall'
        dsimp only
        omega
  · constructor
    · rw [frames, hcall]
      exact Nat.succ_pos _
    · rw [weight, hlevel]
      cases hph : s.calls.phase (t, s.depth t) with
      | idle => exact Nat.zero_le _
      | locking c' todo got =>
        rw [hph, hsettled c' todo got hph] at hi
        cases hi
      | _ =>
        rw [hph] at hcall
        obtain rfl := Option.some.inj hcall
        exact Nat.le_refl _
  · rw [hstack.beyond k hgt] at hi
    cases hi

/-! ### One call less -/

variable [DecidableEq τ] [DecidableEq ι] [DecidableEq κ] [DecidableEq ρ]

/-- The call moves, but does not return. -/
theorem Moves.frames_eq {ph : Phase ι α κ ρ}
    (hmoves : Moves code callback s s' (t, s.depth t) ph)
    (hcall : call? ph = call? (s.calls.phase (t, s.depth t))) (u : τ) :
    frames s' u = frames s u := by
  by_cases hu : u = t
  · have hdepth : s'.depth u = s.depth u := by rw [State.depth, hmoves.waiting, State.depth]
    rw [frames, frames, hdepth, hmoves.phase, hu, Function.update_self,
      hcall]
  · exact frames_of_ne hmoves.phase (by rw [hmoves.waiting]) hu

/-- One call less is in progress. -/
def OneLess (s s' : State τ ι α κ ρ) (t : τ) : Prop :=
  frames s' t + 1 = frames s t ∧ ∀ u ≠ t, frames s' u = frames s u

/-- A call that has put down everything returns. -/
theorem exists_returned (h : Orderly R code callback s) {r : ρ}
    (hph : s.calls.phase (t, s.depth t) = .leaving c r []) :
    ∃ s', Reaches code callback s s' ∧ OneLess s s' t := by
  have hframes : frames s t = s.depth t + 1 := by
    rw [frames, hph]
    rfl
  cases hwaiting : s.waiting t with
  | nil =>
    have hzero : s.depth t = 0 := by
      rw [State.depth, hwaiting]
      rfl
    rw [hzero] at hph hframes
    have hstep : step code callback s (.respond (t, 0) c r) = some _ :=
      move_eq_some.mpr ⟨_, step_respond.mpr ⟨hph, rfl⟩, rfl⟩
    refine ⟨_, Reaches.single (l := .respond (t, 0) c r) rfl hstep, ?_,
      fun u hu => frames_of_ne rfl rfl hu⟩
    rw [hframes, frames, if_pos]
    show (call? (Function.update s.calls.phase (t, 0) .idle (t, s.depth t))).isNone
    rw [hzero, Function.update_self]
    rfl
  | cons next rest =>
    have hdepth : s.depth t = rest.length + 1 := by
      rw [State.depth, hwaiting]
      rfl
    rw [hdepth] at hph hframes
    obtain ⟨s', hreach, hphase, hwaiting', -⟩ : ∃ s', Reaches code callback s s' ∧ _ :=
      exists_popped hwaiting hph
    refine ⟨s', hreach, ?_, fun u hu => ?_⟩
    · obtain ⟨c₀, held, p, hph₀⟩ := (h.stack t).inside (k := rest.length) (by rw [hwaiting]; simp)
      have hdepth' : s'.depth t = rest.length := by
        rw [State.depth, hwaiting', Function.update_self]
      have hph' : s'.calls.phase (t, rest.length) = .inside c₀ held p := by
        rw [hphase, Function.update_of_ne (by simp)]
        exact hph₀
      rw [hframes, frames, hdepth', hph']
      rfl
    · exact frames_of_ne hphase (by rw [hwaiting', Function.update_of_ne hu]) hu

/-- A call with nothing left to do but to put down its mutexes returns. -/
theorem Moves.returned (hkept : R.Kept code callback) (h : Orderly R code callback s) {r : ρ}
    {held : List ι} (hmoves : Moves code callback s s' (t, s.depth t) (.leaving c r held))
    (hcall : call? (s.calls.phase (t, s.depth t)) = some c) :
    ∃ s'', Reaches code callback s s'' ∧ OneLess s s'' t := by
  obtain ⟨u, hdown⟩ := exists_put_down code callback hmoves.self
  have hleft := hmoves.trans hdown
  have hdepth : u.depth t = s.depth t := by rw [State.depth, hleft.waiting, State.depth]
  obtain ⟨s'', hreach, hless, hother⟩ : ∃ s'', Reaches code callback u s'' ∧ OneLess u s'' t :=
    exists_returned (hleft.reach.orderly hkept h) (hdepth ▸ hleft.self)
  have hframes := hleft.frames_eq (hcall ▸ rfl)
  exact ⟨s'', hleft.reach.trans hreach, hframes t ▸ hless, fun v hv => hframes v ▸ hother v hv⟩

/-- All threads can put down the mutexes of calls that still wait for others. No call is
lost or finished by that. -/
theorem exists_settled (code : κ → Section ι α ρ) (callback : α → α → Script κ ρ)
    (s : State τ ι α κ ρ) (ts : List τ) : ∃ s', Reaches code callback s s' ∧
      (∀ u, frames s' u = frames s u) ∧ ∀ t ∈ ts, Settled s' t := by
  induction ts with
  | nil => exact ⟨s, Leads.refl s, fun _ => rfl, nofun⟩
  | cons t ts ih =>
    obtain ⟨w, hreach, hframes, hts⟩ := ih
    by_cases hsettled : Settled w t
    · exact ⟨w, hreach, hframes, List.forall_mem_cons.mpr ⟨hsettled, hts⟩⟩
    · simp only [Settled, not_forall] at hsettled
      obtain ⟨c, todo, got, hph, -⟩ := hsettled
      obtain ⟨s', todo', hback⟩ := exists_backed_off code callback hph
      have hdepth : ∀ u, s'.depth u = w.depth u :=
        fun u => by rw [State.depth, hback.waiting, State.depth]
      refine ⟨s', hreach.trans hback.reach,
        fun u => (hback.frames_eq (by rw [hph]; rfl) u).trans (hframes u), fun v hv => ?_⟩
      intro c' todo'' got' hph'
      rw [hdepth, hback.phase] at hph'
      by_cases hvt : v = t
      · rw [hvt, Function.update_self] at hph'
        exact (Phase.locking.inj hph').2.2.symm
      · rw [Function.update_of_ne fun heq => hvt (Prod.mk.inj heq).1] at hph'
        exact hts v ((List.mem_cons.mp hv).resolve_left hvt) c' todo'' got' hph'

/-- If any call is in progress, one can return. -/
theorem exists_fewer [Fintype τ] (hkept : R.Kept code callback) (hl : Layered R code level rank)
    (h : Orderly R code callback s) (hbusy : ∃ t, frames s t ≠ 0) :
    ∃ s' t, Reaches code callback s s' ∧ OneLess s s' t := by
  obtain ⟨w, hreach, hframes, hsettled⟩ := exists_settled code callback s
    (Finset.univ : Finset τ).toList
  replace hsettled : ∀ t, Settled w t :=
    fun t => hsettled t (Finset.mem_toList.mpr (Finset.mem_univ t))
  have hw := hreach.orderly hkept h
  -- a thread of the lowest weight
  obtain ⟨t, ht, hmin⟩ : ∃ t, frames w t ≠ 0 ∧
      ∀ u, frames w u ≠ 0 → weight rank w t ≤ weight rank w u := by
    obtain ⟨t₀, ht₀⟩ := hbusy
    obtain ⟨t, ht, hmin⟩ := Finset.exists_min_image (Finset.univ.filter fun t => frames w t ≠ 0)
      (weight rank w) ⟨t₀, by simpa [hframes] using ht₀⟩
    exact ⟨t, (Finset.mem_filter.mp ht).2, fun u hu => hmin u (by simpa using hu)⟩
  have habove : ∀ v, ∀ i ∈ (w.calls.phase v).held, weight rank w t ≤ 2 * level i := by
    intro v i hi
    obtain ⟨hpos, hle⟩ := weight_le hw hl (hsettled v.1) hi
    exact (hmin v.1 hpos.ne').trans hle
  suffices hone : ∃ s', Reaches code callback w s' ∧ OneLess w s' t by
    obtain ⟨s', hreach', hless, hother⟩ := hone
    exact ⟨s', t, hreach.trans hreach', hframes t ▸ hless, fun u hu => hframes u ▸ hother u hu⟩
  rw [weight] at habove
  cases hph : w.calls.phase (t, w.depth t) with
  | idle =>
    rw [frames, hph] at ht
    exact absurd rfl ht
  | locking c todo got =>
    obtain rfl := hsettled t c todo got hph
    rw [hph] at habove
    have hs : Above level (rank c + 1) w := by
      intro v i hi
      have hle : 2 * rank c + 1 ≤ 2 * level i := habove v i hi
      omega
    obtain ⟨s', r, hleft⟩ := exists_called hkept hl (canLeave hkept hl t (rank c + 1)) hw hph
      (Nat.lt_succ_self _) hs
    exact hleft.returned hkept hw (by rw [hph]; rfl)
  | inside c held p =>
    rw [hph] at habove
    have hs : Above level (rank c) w := by
      intro v i hi
      have hle : 2 * rank c ≤ 2 * level i := habove v i hi
      omega
    obtain ⟨s', r, hleft⟩ := canLeave hkept hl t (rank c + 1) w c held p hw hph
      (Nat.lt_succ_self _) hs
    exact hleft.returned hkept hw (by rw [hph]; rfl)
  | leaving c r held =>
    have hleft : Moves code callback w w (t, w.depth t) (.leaving c r held) :=
      hph ▸ Moves.refl w _
    exact hleft.returned hkept hw (by rw [hph]; rfl)

/-- **No deadlock in layers.** All calls in progress can return without any client calling
anew. -/
theorem can_complete_all [Fintype τ] (hkept : R.Kept code callback)
    (hl : Layered R code level rank) (h : Orderly R code callback s) :
    ∃ s', Reaches code callback s s' ∧ s'.Quiescent := by
  induction hcount : ∑ t, frames s t using Nat.strong_induction_on generalizing s with
  | _ count ih =>
    by_cases hbusy : ∃ t, frames s t ≠ 0
    · obtain ⟨u, t, hreach, hless, hother⟩ := exists_fewer hkept hl h hbusy
      have hlt : ∑ v, frames u v < ∑ v, frames s v := by
        refine Finset.sum_lt_sum (fun v _ => ?_) ⟨t, Finset.mem_univ t, by omega⟩
        by_cases hv : v = t
        · rw [hv]
          omega
        · exact (hother v hv).le
      obtain ⟨s', hreach', hq⟩ := ih _ (hcount ▸ hlt) (hreach.orderly hkept h) rfl
      exact ⟨s', hreach.trans hreach', hq⟩
    · simp only [not_exists, not_not] at hbusy
      exact ⟨s, Leads.refl s, fun v => idle_of_frames h (hbusy v.1) v.2⟩

end Threads

end Callbacks

end Lib
