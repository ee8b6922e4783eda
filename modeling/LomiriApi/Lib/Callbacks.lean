import LomiriApi.Lib.Locks

/-!
# Callbacks

An assignment in a critical section may run into a callback: code of the client's that
may call again, while the thread still holds the mutexes of the section. So the calls of
a thread nest, and only the innermost one moves.

- `Script`: what a callback does, call by call.
- `State`, `step`: the call at depth `k` of the thread `t` is a thread `(t, k)` of
  `Lib/Locks.lean`. A step is one of its moves, if the nesting admits it.
- `run_calls`: so every run is one of `Lib/Locks.lean`, and inherits what is known of
  those.
- `Rules`: which calls a client may make, and which of them a callback within a call may
  make. `Orderly`: the invariant of a run that keeps to the rules.
- `stuck_run`: a callback that needs a mutex which the thread already holds never
  returns.
-/

namespace Lib

/-- What a callback does: nothing more, or a call, and something that depends on the
answer. Scripts are well-founded, so each callback by itself comes to an end. -/
inductive Script (κ ρ : Type) where
  | done
  | call (c : κ) (next : ρ → Script κ ρ)

namespace Script

variable {κ ρ : Type}

def isDone : Script κ ρ → Bool
  | .done => true
  | .call _ _ => false

theorem isDone_iff {script : Script κ ρ} : script.isDone = true ↔ script = .done := by
  cases script <;> simp [isDone]

/-- `P` holds of every call that the callback may come to make. -/
def All (P : κ → Prop) : Script κ ρ → Prop
  | .done => True
  | .call c next => P c ∧ ∀ r, (next r).All P

theorem All.mono {P Q : κ → Prop} (h : ∀ c, P c → Q c) {script : Script κ ρ}
    (hall : script.All P) : script.All Q := by
  induction script with
  | done => trivial
  | call c next ih => exact ⟨h c hall.1, fun r => ih r (hall.2 r)⟩

theorem all_true (script : Script κ ρ) : script.All fun _ => True := by
  induction script with
  | done => trivial
  | call c next ih => exact ⟨trivial, ih⟩

end Script

/-! ## Programs whose assignments run into callbacks -/

namespace Prog

variable {ι α κ ρ ρ' : Type}

/-- The callback that the next statement runs into. -/
def fires (callback : α → α → Script κ ρ') (m : ι → α) : Prog ι α ρ → Script κ ρ'
  | .write i f _ => callback (m i) (f (m i))
  | _ => .done

/-- On cells that fit, the program makes assignments that fit, and runs into callbacks that
make no calls but those in `P`. It is a precondition that is carried along the statements
of a section. -/
def Keeps (fit : ι → α → Prop) (callback : α → α → Script κ ρ') (P : κ → Prop) :
    Prog ι α ρ → Prop
  | .ret _ => True
  | .read i k => ∀ a, fit i a → (k a).Keeps fit callback P
  | .write i f k =>
    (∀ a, fit i a → fit i (f a) ∧ (callback a (f a)).All P) ∧ k.Keeps fit callback P

section Keeps

variable (fit : ι → α → Prop) (callback : α → α → Script κ ρ') (P : κ → Prop) (i : ι)

@[simp] theorem keeps_pure (b : ρ) : (pure b : Prog ι α ρ).Keeps fit callback P := trivial

@[simp] theorem keeps_load_bind (g : α → Prog ι α ρ) :
    (load i >>= g).Keeps fit callback P ↔ ∀ a, fit i a → (g a).Keeps fit callback P := Iff.rfl

@[simp] theorem keeps_modify_bind (f : α → α) (g : Unit → Prog ι α ρ) :
    (modify i f >>= g).Keeps fit callback P ↔
      (∀ a, fit i a → fit i (f a) ∧ (callback a (f a)).All P) ∧ (g ()).Keeps fit callback P :=
  Iff.rfl

@[simp] theorem keeps_load : (load i : Prog ι α α).Keeps fit callback P := fun _ _ => trivial

@[simp] theorem keeps_modify (f : α → α) : (modify i f).Keeps fit callback P ↔
    ∀ a, fit i a → fit i (f a) ∧ (callback a (f a)).All P := by
  simp [modify, Keeps]

@[simp] theorem keeps_map {σ : Type} (f : ρ → σ) (p : Prog ι α ρ) :
    (f <$> p).Keeps fit callback P ↔ p.Keeps fit callback P := by
  show (p.andThen fun b => .ret (f b)).Keeps fit callback P ↔ p.Keeps fit callback P
  induction p with
  | ret b => exact Iff.rfl
  | read j k ih => exact forall₂_congr fun a _ => ih a
  | write j g k ih => exact and_congr_right fun _ => ih

@[simp] theorem keeps_ite {c : Prop} [Decidable c] (p q : Prog ι α ρ) :
    (if c then p else q).Keeps fit callback P ↔
      (c → p.Keeps fit callback P) ∧ (¬c → q.Keeps fit callback P) := by
  by_cases hc : c <;> simp [hc]

/-- Without any demands, every program meets them. -/
theorem keeps_true (p : Prog ι α ρ) : p.Keeps (fun _ _ => True) callback fun _ => True := by
  induction p with
  | ret b => trivial
  | read j k ih => exact fun a _ => ih a
  | write j f k ih => exact ⟨fun a _ => ⟨trivial, Script.all_true _⟩, ih⟩

end Keeps

section Next

variable [DecidableEq ι] {fit : ι → α → Prop} {callback : α → α → Script κ ρ'} {P : κ → Prop}
  {p q : Prog ι α ρ} {m m' : ι → α}

/-- What one statement does, if everything fits. -/
theorem keeps_next (hp : p.Keeps fit callback P) (hm : ∀ i, fit i (m i))
    (h : p.next m = some (m', q)) :
    q.Keeps fit callback P ∧ (∀ i, fit i (m' i)) ∧ (p.fires callback m).All P := by
  obtain ⟨i, k, rfl, rfl, rfl⟩ | ⟨i, f, rfl, rfl⟩ := next_cases h
  · exact ⟨hp _ (hm i), hm, trivial⟩
  · obtain ⟨hwrite, hrest⟩ := hp
    obtain ⟨hfit, hfires⟩ := hwrite (m i) (hm i)
    refine ⟨hrest, fun j => ?_, hfires⟩
    by_cases hj : j = i
    · subst hj
      rwa [Function.update_self]
    · rw [Function.update_of_ne hj]
      exact hm j

end Next

end Prog

namespace Callbacks

open Locks

variable {τ ι α κ ρ : Type}

/-- The threads with their calls. A thread in a callback has several calls in progress, one
at each depth, and only the innermost one is not waiting. -/
structure State (τ ι α κ ρ : Type) where
  /-- the call at depth `k` of the thread `t` is at `(t, k)` -/
  calls : Locks.State (τ × Nat) ι α κ ρ
  /-- what is left of the callback that the innermost call of a thread has run into -/
  script : τ → Script κ ρ
  /-- what the callbacks of the outer calls do with the answers that they wait for; the
  one that waits for the innermost call is first -/
  waiting : τ → List (ρ → Script κ ρ)

namespace State

/-- All threads are between two calls. -/
def initial (m : ι → α) : State τ ι α κ ρ := ⟨Locks.State.initial m, fun _ => .done, fun _ => []⟩

/-- The depth of the innermost call. -/
def depth (s : State τ ι α κ ρ) (t : τ) : Nat := (s.waiting t).length

/-- No call is in progress. -/
def Quiescent (s : State τ ι α κ ρ) : Prop := s.calls.Quiescent

end State

/-- The callback that the next statement of a call runs into. -/
def fires (callback : α → α → Script κ ρ) (m : ι → α) : Phase ι α κ ρ → Script κ ρ
  | .inside _ _ p => p.fires callback m
  | _ => .done

/-! ## The step function -/

section Step

variable [DecidableEq τ] [DecidableEq ι] [DecidableEq κ] [DecidableEq ρ]

/-- A call moves, and the nesting is what it is then. -/
def State.move (code : κ → Section ι α ρ) (s : State τ ι α κ ρ) (l : Label (τ × Nat) ι κ ρ)
    (script : τ → Script κ ρ) (waiting : τ → List (ρ → Script κ ρ)) :
    Option (State τ ι α κ ρ) :=
  (Locks.step code s.calls l).map fun calls => ⟨calls, script, waiting⟩

/-- One move of one thread. An outer call takes no mutex, puts none down and does not
return, since it is in its section; but it must be kept from going on there. -/
def step (code : κ → Section ι α ρ) (callback : α → α → Script κ ρ) (s : State τ ι α κ ρ)
    (l : Label (τ × Nat) ι κ ρ) : Option (State τ ι α κ ρ) :=
  match l with
  | .invoke (t, k + 1) c =>
    -- a callback calls
    match s.script t with
    | .call c' next =>
      if c = c' ∧ k = s.depth t then
        s.move code l (Function.update s.script t .done)
          (Function.update s.waiting t (next :: s.waiting t))
      else none
    | .done => none
  | .respond (t, k + 1) _ r =>
    -- a callback gets its answer
    match s.waiting t with
    | next :: waiting =>
      if k = waiting.length then
        s.move code l (Function.update s.script t (next r)) (Function.update s.waiting t waiting)
      else none
    | [] => none
  | .exec (t, k) =>
    if k = s.depth t ∧ (s.script t).isDone then
      s.move code l (Function.update s.script t (fires callback s.calls.mem (s.calls.phase (t, k))))
        s.waiting
    else none
  | .finish (t, k) =>
    if k = s.depth t ∧ (s.script t).isDone then s.move code l s.script s.waiting else none
  | _ => s.move code l s.script s.waiting

variable {code : κ → Section ι α ρ} {callback : α → α → Script κ ρ} {s s' : State τ ι α κ ρ}
  {t : τ} {k : Nat} {c : κ} {r : ρ} {l : Label (τ × Nat) ι κ ρ}

theorem move_eq_some {script : τ → Script κ ρ} {waiting : τ → List (ρ → Script κ ρ)} :
    s.move code l script waiting = some s' ↔
      ∃ calls, Locks.step code s.calls l = some calls ∧ s' = ⟨calls, script, waiting⟩ := by
  simp [State.move, @eq_comm _ s']

theorem step_callback : step code callback s (.invoke (t, k + 1) c) = some s' ↔
    ∃ next calls, s.script t = .call c next ∧ k = s.depth t ∧
      Locks.step code s.calls (.invoke (t, k + 1) c) = some calls ∧
      s' = ⟨calls, Function.update s.script t .done,
        Function.update s.waiting t (next :: s.waiting t)⟩ := by
  cases hscript : s.script t with
  | done => simp [step, hscript]
  | call c' next =>
    simp only [step, hscript]
    constructor
    · intro h
      split at h
      · rename_i hck
        obtain ⟨rfl, hk⟩ := hck
        obtain ⟨calls, hcalls, rfl⟩ := move_eq_some.mp h
        exact ⟨next, calls, rfl, hk, hcalls, rfl⟩
      · cases h
    · rintro ⟨next', calls, heq, hk, hcalls, rfl⟩
      obtain ⟨rfl, rfl⟩ := Script.call.inj heq
      rw [if_pos ⟨rfl, hk⟩]
      exact move_eq_some.mpr ⟨calls, hcalls, rfl⟩

theorem step_answer : step code callback s (.respond (t, k + 1) c r) = some s' ↔
    ∃ next waiting calls, s.waiting t = next :: waiting ∧ k = waiting.length ∧
      Locks.step code s.calls (.respond (t, k + 1) c r) = some calls ∧
      s' = ⟨calls, Function.update s.script t (next r), Function.update s.waiting t waiting⟩ := by
  cases hwaiting : s.waiting t with
  | nil => simp [step, hwaiting]
  | cons next waiting =>
    simp only [step, hwaiting]
    constructor
    · intro h
      split at h
      · rename_i hk
        obtain ⟨calls, hcalls, rfl⟩ := move_eq_some.mp h
        exact ⟨next, waiting, calls, rfl, hk, hcalls, rfl⟩
      · cases h
    · rintro ⟨next', waiting', calls, heq, hk, hcalls, rfl⟩
      obtain ⟨rfl, rfl⟩ := List.cons.inj heq
      rw [if_pos hk]
      exact move_eq_some.mpr ⟨calls, hcalls, rfl⟩

theorem step_exec : step code callback s (.exec (t, k)) = some s' ↔
    ∃ calls, k = s.depth t ∧ s.script t = .done ∧
      Locks.step code s.calls (.exec (t, k)) = some calls ∧
      s' = ⟨calls, Function.update s.script t
        (fires callback s.calls.mem (s.calls.phase (t, k))), s.waiting⟩ := by
  rw [step]
  split
  · rename_i h
    obtain ⟨hk, hdone⟩ := h
    rw [move_eq_some]
    exact ⟨fun ⟨calls, hcalls, heq⟩ => ⟨calls, hk, Script.isDone_iff.mp hdone, hcalls, heq⟩,
      fun ⟨calls, _, _, hcalls, heq⟩ => ⟨calls, hcalls, heq⟩⟩
  · rename_i h
    exact ⟨nofun, fun ⟨calls, hk, hdone, _⟩ => absurd ⟨hk, Script.isDone_iff.mpr hdone⟩ h⟩

theorem step_finish : step code callback s (.finish (t, k)) = some s' ↔
    ∃ calls, k = s.depth t ∧ s.script t = .done ∧
      Locks.step code s.calls (.finish (t, k)) = some calls ∧
      s' = ⟨calls, s.script, s.waiting⟩ := by
  rw [step]
  split
  · rename_i h
    obtain ⟨hk, hdone⟩ := h
    rw [move_eq_some]
    exact ⟨fun ⟨calls, hcalls, heq⟩ => ⟨calls, hk, Script.isDone_iff.mp hdone, hcalls, heq⟩,
      fun ⟨calls, _, _, hcalls, heq⟩ => ⟨calls, hcalls, heq⟩⟩
  · rename_i h
    exact ⟨nofun, fun ⟨calls, hk, hdone, _⟩ => absurd ⟨hk, Script.isDone_iff.mpr hdone⟩ h⟩

/-- Every step is a move of the calls. -/
theorem step_calls (h : step code callback s l = some s') :
    Locks.step code s.calls l = some s'.calls := by
  have hmove : ∀ {script waiting}, s.move code l script waiting = some s' →
      Locks.step code s.calls l = some s'.calls := by
    intro script waiting h
    obtain ⟨calls, hcalls, rfl⟩ := move_eq_some.mp h
    exact hcalls
  unfold step at h
  split at h
  · split at h
    · split at h
      · exact hmove h
      · cases h
    · cases h
  · split at h
    · split at h
      · exact hmove h
      · cases h
    · cases h
  · split at h
    · exact hmove h
    · cases h
  · split at h
    · exact hmove h
    · cases h
  · exact hmove h

/-- **A run with callbacks is a run of the calls.** Whatever holds of threads holds with
callbacks as well, if each depth is looked at as a thread of its own. -/
theorem run_calls {ls : List (Label (τ × Nat) ι κ ρ)}
    (h : run (step code callback) s ls = some s') :
    run (Locks.step code) s.calls ls = some s'.calls := by
  induction ls generalizing s with
  | nil => exact congrArg (fun s => some s.calls) (Option.some.inj h)
  | cons l ls ih =>
    obtain ⟨u, hu, hrest⟩ := run_cons_eq_some.mp h
    exact run_cons_eq_some.mpr ⟨u.calls, step_calls hu, ih hrest⟩

end Step

/-! ## The rules of calling -/

/-- What clients and callbacks keep to. The rules are a parameter, since different results
need different ones. -/
structure Rules (ι α κ : Type) where
  /-- what a cell may hold -/
  fit : ι → α → Prop
  /-- the calls that may be made -/
  ok : κ → Prop
  /-- `within c c'`: a callback in the call `c` may make the call `c'` -/
  within : κ → κ → Prop

/-- No rules, for what holds whatever clients and callbacks do. -/
def Rules.none : Rules ι α κ := ⟨fun _ _ => True, fun _ => True, fun _ _ => True⟩

/-- The sections keep to the rules, and so do the callbacks that they run into. It is
checked once for each section, and not along a run. -/
structure Rules.Kept (R : Rules ι α κ) (code : κ → Section ι α ρ)
    (callback : α → α → Script κ ρ) : Prop where
  body : ∀ c, R.ok c → (code c).body.Keeps R.fit callback (R.within c)
  ok : ∀ c c', R.within c c' → R.ok c'

theorem Rules.none_kept (code : κ → Section ι α ρ) (callback : α → α → Script κ ρ) :
    (Rules.none : Rules ι α κ).Kept code callback :=
  ⟨fun c _ => Prog.keeps_true callback (code c).body, fun _ _ _ => trivial⟩

/-- The call that a thread is in. -/
def call? : Phase ι α κ ρ → Option κ
  | .idle => none
  | .locking c _ _ => some c
  | .inside c _ _ => some c
  | .leaving c _ _ => some c

/-- A call that keeps to the rules, in whatever phase it is. -/
def Good (R : Rules ι α κ) (code : κ → Section ι α ρ) (callback : α → α → Script κ ρ) :
    Phase ι α κ ρ → Prop
  | .idle => True
  | .locking c _ _ => R.ok c
  | .inside c held p =>
    R.ok c ∧ held ⊆ (code c).locks ∧ p.Keeps R.fit callback (R.within c)
  | .leaving c _ held => R.ok c ∧ held ⊆ (code c).locks

/-- The nested calls of one thread: `phase k` is where the one at depth `k` is. All but the
innermost one are inside their sections, waiting for a callback. -/
structure Stack (R : Rules ι α κ) (code : κ → Section ι α ρ) (callback : α → α → Script κ ρ)
    (phase : Nat → Phase ι α κ ρ) (script : Script κ ρ) (waiting : List (ρ → Script κ ρ)) :
    Prop where
  good : ∀ k, Good R code callback (phase k)
  /-- only in its section a call runs into a callback -/
  script : script = .done ∨
    ∃ c held p, phase waiting.length = .inside c held p ∧ script.All (R.within c)
  /-- an outer call is in its section, too, and waits for a call that it may make -/
  outer : ∀ next rest, next :: rest <:+ waiting → ∃ c held p,
    phase rest.length = .inside c held p ∧ (∀ r, (next r).All (R.within c)) ∧
    ∃ c', call? (phase (rest.length + 1)) = some c' ∧ R.within c c'
  beyond : ∀ k, waiting.length < k → phase k = .idle

/-- **The invariant** of a run that keeps to the rules. It joins the invariant of the
mutexes, the stack of each thread, and what the cells hold. -/
structure Orderly (R : Rules ι α κ) (code : κ → Section ι α ρ) (callback : α → α → Script κ ρ)
    (s : State τ ι α κ ρ) : Prop where
  coherent : Coherent code s.calls
  fits : ∀ i, R.fit i (s.calls.mem i)
  stack : ∀ t, Stack R code callback (fun k => s.calls.phase (t, k)) (s.script t) (s.waiting t)

/-- A client's call, if the move is one, keeps to the rules. This is all that is asked of a
run; the callbacks are taken care of by `Rules.Kept`. -/
def ClientOk (R : Rules ι α κ) : Label (τ × Nat) ι κ ρ → Prop
  | .invoke (_, 0) c => R.ok c
  | _ => True

theorem clientOk_none (l : Label (τ × Nat) ι κ ρ) : ClientOk (Rules.none : Rules ι α κ) l := by
  cases l with
  | invoke tk c =>
    obtain ⟨t, k⟩ := tk
    cases k <;> trivial
  | _ => trivial

variable {R : Rules ι α κ} {code : κ → Section ι α ρ} {callback : α → α → Script κ ρ}

theorem orderly_initial {m : ι → α} (hm : ∀ i, R.fit i (m i)) :
    Orderly R code callback (State.initial m : State τ ι α κ ρ) where
  coherent := coherent_initial code m
  fits := hm
  stack _ := ⟨fun _ => trivial, .inl rfl, fun _ _ h => absurd (List.suffix_nil.mp h) nofun,
    fun _ _ => rfl⟩

/-! ## The calls of one thread -/

section Stack

variable {phase : Nat → Phase ι α κ ρ} {script : Script κ ρ} {waiting : List (ρ → Script κ ρ)}
  {k : Nat}

/-- There is a callback that waits at each depth. -/
theorem exists_waiting : ∀ {waiting : List (ρ → Script κ ρ)} {k : Nat}, k < waiting.length →
    ∃ next rest, next :: rest <:+ waiting ∧ rest.length = k
  | next :: rest, k, h => by
    rcases Nat.lt_succ_iff_lt_or_eq.mp h with hlt | heq
    · obtain ⟨next', rest', hsuffix, hlength⟩ := exists_waiting hlt
      exact ⟨next', rest', hsuffix.trans (List.suffix_cons next rest), hlength⟩
    · exact ⟨next, rest, List.suffix_refl _, heq.symm⟩

/-- An outer call is in its section. -/
theorem Stack.inside (h : Stack R code callback phase script waiting) (hk : k < waiting.length) :
    ∃ c held p, phase k = .inside c held p := by
  obtain ⟨next, rest, hsuffix, rfl⟩ := exists_waiting hk
  obtain ⟨c, held, p, hph, -⟩ := h.outer next rest hsuffix
  exact ⟨c, held, p, hph⟩

/-- A call in any other phase is the innermost one. -/
theorem Stack.innermost (h : Stack R code callback phase script waiting)
    (hidle : phase k ≠ .idle) (hinside : ∀ c held p, phase k ≠ .inside c held p) :
    k = waiting.length := by
  rcases Nat.lt_trichotomy k waiting.length with hlt | heq | hgt
  · obtain ⟨c, held, p, hph⟩ := h.inside hlt
    exact absurd hph (hinside c held p)
  · exact heq
  · exact absurd (h.beyond k hgt) hidle

/-- A thread that is not in a call at depth 0 is in no call. -/
theorem Stack.eq_nil (h : Stack R code callback phase script waiting) (hidle : phase 0 = .idle) :
    waiting = [] := by
  by_contra hne
  obtain ⟨c, held, p, hph⟩ := h.inside (List.length_pos_iff.mpr hne)
  rw [hidle] at hph
  cases hph

/-- The innermost call of a thread in a call is not idle. -/
theorem Stack.busy (h : Stack R code callback phase script waiting) (hne : waiting ≠ []) :
    phase waiting.length ≠ .idle := by
  obtain ⟨next, rest, rfl⟩ := List.exists_cons_of_ne_nil hne
  obtain ⟨-, -, -, -, -, c', hcall, -⟩ := h.outer next rest (List.suffix_refl _)
  intro hidle
  rw [show rest.length + 1 = (next :: rest).length from rfl, hidle] at hcall
  cases hcall

/-- Outside its section a call runs into no callback. -/
theorem Stack.script_done (h : Stack R code callback phase script waiting)
    (hinside : ∀ c held p, phase waiting.length ≠ .inside c held p) : script = .done := by
  rcases h.script with hdone | ⟨c, held, p, hph, -⟩
  · exact hdone
  · exact absurd hph (hinside c held p)

/-- The innermost call moves on. -/
theorem Stack.advance (h : Stack R code callback phase script waiting) {ph : Phase ι α κ ρ}
    {script' : Script κ ρ} (hcall : call? ph = call? (phase waiting.length))
    (hgood : Good R code callback ph)
    (hscript : script' = .done ∨ ∃ c held p, ph = .inside c held p ∧ script'.All (R.within c)) :
    Stack R code callback (Function.update phase waiting.length ph) script' waiting where
  good k := by
    by_cases hk : k = waiting.length
    · rwa [hk, Function.update_self]
    · rw [Function.update_of_ne hk]
      exact h.good k
  script := by
    rwa [Function.update_self]
  outer next rest hsuffix := by
    obtain ⟨c, held, p, hph, hnext, c', hcall', hwithin⟩ := h.outer next rest hsuffix
    have hle : rest.length + 1 ≤ waiting.length := hsuffix.length_le
    refine ⟨c, held, p, ?_, hnext, c', ?_, hwithin⟩
    · rwa [Function.update_of_ne (by omega)]
    · by_cases hk : rest.length + 1 = waiting.length
      · rw [hk, Function.update_self, hcall, ← hk]
        exact hcall'
      · rwa [Function.update_of_ne hk]
  beyond k hk := by
    rw [Function.update_of_ne hk.ne']
    exact h.beyond k hk

/-- A callback of the innermost call calls. -/
theorem Stack.push (h : Stack R code callback phase script waiting) (hkept : R.Kept code callback)
    {c : κ} {next : ρ → Script κ ρ} (hscript : script = .call c next) (todo got : List ι) :
    Stack R code callback (Function.update phase (waiting.length + 1) (.locking c todo got)) .done
      (next :: waiting) := by
  obtain ⟨c₀, held, p, hph, hall⟩ := h.script.resolve_left (by rw [hscript]; nofun)
  rw [hscript] at hall
  obtain ⟨hwithin, hnext⟩ := hall
  refine ⟨fun k => ?_, .inl rfl, fun next' rest hsuffix => ?_, fun k hk => ?_⟩
  · by_cases hk : k = waiting.length + 1
    · rw [hk, Function.update_self]
      exact hkept.ok c₀ c hwithin
    · rw [Function.update_of_ne hk]
      exact h.good k
  · rcases List.suffix_cons_iff.mp hsuffix with heq | hsuffix
    · obtain ⟨rfl, rfl⟩ := List.cons.inj heq
      refine ⟨c₀, held, p, ?_, hnext, c, ?_, hwithin⟩
      · rwa [Function.update_of_ne (Nat.ne_of_lt (Nat.lt_succ_self _))]
      · rw [Function.update_self]
        rfl
    · obtain ⟨c₁, held₁, p₁, hph₁, hnext₁, c', hcall, hwithin₁⟩ := h.outer next' rest hsuffix
      have hle : rest.length + 1 ≤ waiting.length := hsuffix.length_le
      refine ⟨c₁, held₁, p₁, ?_, hnext₁, c', ?_, hwithin₁⟩
      · rwa [Function.update_of_ne (by omega)]
      · rwa [Function.update_of_ne (by omega)]
  · have hlt : waiting.length + 1 < k := hk
    rw [Function.update_of_ne (by omega)]
    exact h.beyond k (by omega)

/-- The innermost call returns to the callback that has made it. -/
theorem Stack.pop {next : ρ → Script κ ρ}
    (h : Stack R code callback phase script (next :: waiting)) (r : ρ) :
    Stack R code callback (Function.update phase (waiting.length + 1) .idle) (next r) waiting := by
  obtain ⟨c, held, p, hph, hnext, -⟩ := h.outer next waiting (List.suffix_refl _)
  refine ⟨fun k => ?_, .inr ⟨c, held, p, ?_, hnext r⟩, fun next' rest hsuffix => ?_, fun k hk => ?_⟩
  · by_cases hk : k = waiting.length + 1
    · rw [hk, Function.update_self]
      trivial
    · rw [Function.update_of_ne hk]
      exact h.good k
  · rwa [Function.update_of_ne (by omega)]
  · obtain ⟨c₁, held₁, p₁, hph₁, hnext₁, c', hcall, hwithin⟩ :=
      h.outer next' rest (hsuffix.trans (List.suffix_cons next waiting))
    have hle : rest.length + 1 ≤ waiting.length := hsuffix.length_le
    refine ⟨c₁, held₁, p₁, ?_, hnext₁, c', ?_, hwithin⟩
    · rwa [Function.update_of_ne (by omega)]
    · rwa [Function.update_of_ne (by omega)]
  · by_cases hk' : k = waiting.length + 1
    · rw [hk', Function.update_self]
    · rw [Function.update_of_ne hk']
      exact h.beyond k (by rw [List.length_cons]; omega)

/-- The outermost call begins or ends. -/
theorem Stack.outermost (h : Stack R code callback phase script [])
    (hinside : ∀ c held p, phase 0 ≠ .inside c held p) {ph : Phase ι α κ ρ}
    (hgood : Good R code callback ph) :
    Stack R code callback (Function.update phase 0 ph) script [] := by
  refine ⟨fun k => ?_, .inl (h.script_done hinside),
    fun _ _ h => absurd (List.suffix_nil.mp h) nofun, fun k (hk : 0 < k) => ?_⟩
  · by_cases hk : k = 0
    · rwa [hk, Function.update_self]
    · rw [Function.update_of_ne hk]
      exact h.good k
  · rw [Function.update_of_ne hk.ne']
    exact h.beyond k hk

end Stack

/-! ## Every step keeps the invariant -/

section Orderly

variable {s s' : State τ ι α κ ρ} {t : τ} {k : Nat}

/-- A call that takes mutexes or puts them down is the innermost one, and runs into no
callback. -/
theorem Orderly.outside (h : Orderly R code callback s) (hidle : s.calls.phase (t, k) ≠ .idle)
    (hinside : ∀ c held p, s.calls.phase (t, k) ≠ .inside c held p) :
    k = s.depth t ∧ s.script t = .done := by
  have hk : k = s.depth t := (h.stack t).innermost hidle hinside
  subst hk
  exact ⟨rfl, (h.stack t).script_done hinside⟩

variable [DecidableEq τ]

/-- A call of the thread `t` moves on, and the nesting of this thread with it. -/
theorem Orderly.move (h : Orderly R code callback s) {calls : Locks.State (τ × Nat) ι α κ ρ}
    {ph : Phase ι α κ ρ} {script : τ → Script κ ρ} {waiting : τ → List (ρ → Script κ ρ)}
    (hcoherent : Coherent code calls) (hfits : ∀ i, R.fit i (calls.mem i))
    (hphase : calls.phase = Function.update s.calls.phase (t, k) ph)
    (hscript : ∀ u ≠ t, script u = s.script u) (hwaiting : ∀ u ≠ t, waiting u = s.waiting u)
    (hstack : Stack R code callback (Function.update (fun j => s.calls.phase (t, j)) k ph)
      (script t) (waiting t)) : Orderly R code callback ⟨calls, script, waiting⟩ where
  coherent := hcoherent
  fits := hfits
  stack u := by
    show Stack R code callback (fun j => calls.phase (u, j)) (script u) (waiting u)
    by_cases hu : u = t
    · subst hu
      have hself : (fun j => calls.phase (u, j))
          = Function.update (fun j => s.calls.phase (u, j)) k ph := by
        funext j
        rw [hphase]
        by_cases hj : j = k
        · rw [hj, Function.update_self, Function.update_self]
        · rw [Function.update_of_ne hj, Function.update_of_ne (fun heq => hj (Prod.mk.inj heq).2)]
      rwa [hself]
    · have hother : (fun j => calls.phase (u, j)) = fun j => s.calls.phase (u, j) := by
        funext j
        rw [hphase, Function.update_of_ne fun heq => hu (Prod.mk.inj heq).1]
      rw [hother, hscript u hu, hwaiting u hu]
      exact h.stack u

/-- The same if only the phase changes, and the call is the innermost one. -/
theorem Orderly.advance (h : Orderly R code callback s) {calls : Locks.State (τ × Nat) ι α κ ρ}
    {ph : Phase ι α κ ρ} (hcoherent : Coherent code calls) (hmem : calls.mem = s.calls.mem)
    (hphase : calls.phase = Function.update s.calls.phase (t, k) ph) (hk : k = s.depth t)
    (hcall : call? ph = call? (s.calls.phase (t, k))) (hgood : Good R code callback ph)
    (hdone : s.script t = .done) : Orderly R code callback ⟨calls, s.script, s.waiting⟩ := by
  subst hk
  refine h.move hcoherent (fun i => ?_) hphase (fun _ _ => rfl) (fun _ _ => rfl) ?_
  · rw [hmem]
    exact h.fits i
  · exact (h.stack t).advance hcall hgood (.inl hdone)

variable [DecidableEq ι] [DecidableEq κ] [DecidableEq ρ] {l : Label (τ × Nat) ι κ ρ}

/-- Every step keeps the invariant. -/
theorem orderly_step (hkept : R.Kept code callback) (h : Orderly R code callback s)
    (hok : ClientOk R l) (hstep : step code callback s l = some s') :
    Orderly R code callback s' := by
  have hcoherent : Coherent code s'.calls := coherent_step h.coherent (step_calls hstep)
  cases l with
  | invoke tk c =>
    obtain ⟨t, k⟩ := tk
    cases k with
    | zero =>
      obtain ⟨calls, hcalls, rfl⟩ := move_eq_some.mp hstep
      obtain ⟨hidle, rfl⟩ := step_invoke.mp hcalls
      have hstack := h.stack t
      have hnil := hstack.eq_nil hidle
      refine h.move hcoherent h.fits rfl (fun _ _ => rfl) (fun _ _ => rfl) ?_
      rw [hnil] at hstack ⊢
      exact hstack.outermost (by simp [hidle]) hok
    | succ k =>
      obtain ⟨next, calls, hscript, rfl, hcalls, rfl⟩ := step_callback.mp hstep
      obtain ⟨hidle, rfl⟩ := step_invoke.mp hcalls
      refine h.move hcoherent h.fits rfl (fun u hu => Function.update_of_ne hu _ _)
        (fun u hu => Function.update_of_ne hu _ _) ?_
      rw [Function.update_self, Function.update_self]
      exact (h.stack t).push hkept hscript _ _
  | lock tk i =>
    obtain ⟨t, k⟩ := tk
    obtain ⟨calls, hcalls, rfl⟩ := move_eq_some.mp hstep
    obtain ⟨c, todo, got, hph, -, -, rfl⟩ := step_lock.mp hcalls
    obtain ⟨hk, hdone⟩ := h.outside (t := t) (k := k) (by simp [hph]) (by simp [hph])
    have hgood := (h.stack t).good k
    rw [hph] at hgood
    exact h.advance hcoherent rfl rfl hk (by rw [hph]; rfl) hgood hdone
  | unlock tk i =>
    obtain ⟨t, k⟩ := tk
    obtain ⟨calls, hcalls, rfl⟩ := move_eq_some.mp hstep
    have hgood := (h.stack t).good k
    obtain ⟨c, todo, got, hph, -, rfl⟩ | ⟨c, r, held, hph, -, rfl⟩ := step_unlock.mp hcalls
    · obtain ⟨hk, hdone⟩ := h.outside (t := t) (k := k) (by simp [hph]) (by simp [hph])
      rw [hph] at hgood
      exact h.advance hcoherent rfl rfl hk (by rw [hph]; rfl) hgood hdone
    · obtain ⟨hk, hdone⟩ := h.outside (t := t) (k := k) (by simp [hph]) (by simp [hph])
      rw [hph] at hgood
      exact h.advance hcoherent rfl rfl hk (by rw [hph]; rfl)
        ⟨hgood.1, fun j hj => hgood.2 (List.mem_of_mem_erase hj)⟩ hdone
  | enter tk =>
    obtain ⟨t, k⟩ := tk
    obtain ⟨calls, hcalls, rfl⟩ := move_eq_some.mp hstep
    obtain ⟨c, got, hph, rfl⟩ := step_enter.mp hcalls
    obtain ⟨hk, hdone⟩ := h.outside (t := t) (k := k) (by simp [hph]) (by simp [hph])
    have hgood := (h.stack t).good k
    have hwf := h.coherent.wf (t, k)
    rw [hph] at hgood hwf
    exact h.advance hcoherent rfl rfl hk (by rw [hph]; rfl)
      ⟨hgood, fun j hj => hwf.subset hj, hkept.body c hgood⟩ hdone
  | exec tk =>
    obtain ⟨t, k⟩ := tk
    obtain ⟨calls, rfl, -, hcalls, rfl⟩ := step_exec.mp hstep
    obtain ⟨c, held, p, m, q, hph, hnext, rfl⟩ := Locks.step_exec.mp hcalls
    have hgood := (h.stack t).good (s.depth t)
    rw [hph] at hgood
    obtain ⟨hok, hheld, hkeeps⟩ := hgood
    obtain ⟨hrest, hfits, hfires⟩ := Prog.keeps_next hkeeps h.fits hnext
    refine h.move hcoherent hfits rfl (fun u hu => Function.update_of_ne hu _ _)
      (fun _ _ => rfl) ?_
    rw [Function.update_self, hph]
    exact (h.stack t).advance (by rw [State.depth] at hph; rw [hph]; rfl) ⟨hok, hheld, hrest⟩
      (.inr ⟨c, held, q, rfl, hfires⟩)
  | finish tk =>
    obtain ⟨t, k⟩ := tk
    obtain ⟨calls, hk, hdone, hcalls, rfl⟩ := step_finish.mp hstep
    obtain ⟨c, held, r, hph, rfl⟩ := Locks.step_finish.mp hcalls
    have hgood := (h.stack t).good k
    rw [hph] at hgood
    exact h.advance hcoherent rfl rfl hk (by rw [hph]; rfl) ⟨hgood.1, hgood.2.1⟩ hdone
  | respond tk c r =>
    obtain ⟨t, k⟩ := tk
    cases k with
    | zero =>
      obtain ⟨calls, hcalls, rfl⟩ := move_eq_some.mp hstep
      obtain ⟨hph, rfl⟩ := step_respond.mp hcalls
      have hstack := h.stack t
      have hlength := hstack.innermost (k := 0) (by simp [hph]) (by simp [hph])
      have hnil := List.eq_nil_of_length_eq_zero hlength.symm
      refine h.move hcoherent h.fits rfl (fun _ _ => rfl) (fun _ _ => rfl) ?_
      rw [hnil] at hstack ⊢
      exact hstack.outermost (by simp [hph]) trivial
    | succ k =>
      obtain ⟨next, waiting, calls, hwaiting, rfl, hcalls, rfl⟩ := step_answer.mp hstep
      obtain ⟨hph, rfl⟩ := step_respond.mp hcalls
      have hstack := h.stack t
      rw [hwaiting] at hstack
      refine h.move hcoherent h.fits rfl (fun u hu => Function.update_of_ne hu _ _)
        (fun u hu => Function.update_of_ne hu _ _) ?_
      rw [Function.update_self, Function.update_self]
      exact hstack.pop r

/-- Every run of clients that keep to the rules keeps the invariant. -/
theorem orderly_run (hkept : R.Kept code callback) (h : Orderly R code callback s)
    (hrun : Leads (step code callback) (ClientOk R) s s') : Orderly R code callback s' :=
  hrun.invariant (fun _ _ _ hok h hstep => orderly_step hkept h hok hstep) h

end Orderly

/-! ## A callback that never returns -/

section Stuck

variable {s s' : State τ ι α κ ρ} {l : Label (τ × Nat) ι κ ρ} {t : τ} {d j : Nat} {c : κ} {i : ι}

/-- The call `c` at depth `d` waits for the mutex `i`, which the call at depth `j` of the
same thread holds. -/
structure Stuck (s : State τ ι α κ ρ) (t : τ) (d j : Nat) (c : κ) (i : ι) : Prop where
  depth : s.depth t = d
  outer : j < d
  held : i ∈ (s.calls.phase (t, j)).held
  waits : ∃ todo got, s.calls.phase (t, d) = .locking c todo got ∧ i ∈ todo

variable [DecidableEq τ]

/-- The call may take and put down other mutexes. -/
theorem Stuck.keep (hs : Stuck s t d j c i) {calls : Locks.State (τ × Nat) ι α κ ρ}
    {todo got : List ι} (script : τ → Script κ ρ)
    (hphase : calls.phase = Function.update s.calls.phase (t, d) (.locking c todo got))
    (htodo : i ∈ todo) : Stuck ⟨calls, script, s.waiting⟩ t d j c i where
  depth := hs.depth
  outer := hs.outer
  held := by
    rw [hphase, Function.update_of_ne fun heq => hs.outer.ne (Prod.mk.inj heq).2]
    exact hs.held
  waits := ⟨todo, got, by rw [hphase, Function.update_self], htodo⟩

variable [DecidableEq ι] [DecidableEq κ] [DecidableEq ρ]

/-- The call that moves. -/
def mover {σ : Type} : Label σ ι κ ρ → σ
  | .invoke v _ | .lock v _ | .unlock v _ | .enter v | .exec v | .finish v | .respond v _ _ => v

/-- The other calls stay where they are. -/
theorem phase_of_ne {s s' : Locks.State τ ι α κ ρ} {l : Label τ ι κ ρ}
    (hstep : Locks.step code s l = some s') {v : τ} (hv : v ≠ mover l) :
    s'.phase v = s.phase v := by
  cases l with
  | invoke t c =>
    obtain ⟨-, rfl⟩ := step_invoke.mp hstep
    exact State.go_phase_ne _ _ _ hv
  | lock t i =>
    obtain ⟨c, todo, got, -, -, -, rfl⟩ := step_lock.mp hstep
    exact State.go_phase_ne _ _ _ hv
  | unlock t i =>
    obtain ⟨c, todo, got, -, -, rfl⟩ | ⟨c, r, held, -, -, rfl⟩ := step_unlock.mp hstep
    · exact State.go_phase_ne _ _ _ hv
    · exact State.go_phase_ne _ _ _ hv
  | enter t =>
    obtain ⟨c, got, -, rfl⟩ := step_enter.mp hstep
    exact State.go_phase_ne _ _ _ hv
  | exec t =>
    obtain ⟨c, held, p, m, q, -, -, rfl⟩ := Locks.step_exec.mp hstep
    exact State.go_phase_ne _ _ _ hv
  | finish t =>
    obtain ⟨c, held, r, -, rfl⟩ := Locks.step_finish.mp hstep
    exact State.go_phase_ne _ _ _ hv
  | respond t c r =>
    obtain ⟨-, rfl⟩ := step_respond.mp hstep
    exact State.go_phase_ne _ _ _ hv

/-- The nesting of the other threads stays as it is. -/
theorem waiting_of_ne (hstep : step code callback s l = some s') (ht : t ≠ (mover l).1) :
    s'.waiting t = s.waiting t := by
  cases l with
  | invoke tk c =>
    obtain ⟨u, k⟩ := tk
    cases k with
    | zero =>
      obtain ⟨calls, -, rfl⟩ := move_eq_some.mp hstep
      rfl
    | succ k =>
      obtain ⟨next, calls, -, -, -, rfl⟩ := step_callback.mp hstep
      exact Function.update_of_ne ht _ _
  | exec tk =>
    obtain ⟨calls, -, -, -, rfl⟩ := step_exec.mp hstep
    rfl
  | finish tk =>
    obtain ⟨calls, -, -, -, rfl⟩ := step_finish.mp hstep
    rfl
  | respond tk c r =>
    obtain ⟨u, k⟩ := tk
    cases k with
    | zero =>
      obtain ⟨calls, -, rfl⟩ := move_eq_some.mp hstep
      rfl
    | succ k =>
      obtain ⟨next, waiting, calls, -, -, -, rfl⟩ := step_answer.mp hstep
      exact Function.update_of_ne ht _ _
  | _ =>
    obtain ⟨calls, -, rfl⟩ := move_eq_some.mp hstep
    rfl

/-- A call of the thread can only take other mutexes and put them down again. -/
theorem stuck_step_self (h : Orderly R code callback s) (hs : Stuck s t d j c i) {k : Nat}
    (hl : mover l = (t, k)) (hstep : step code callback s l = some s') : Stuck s' t d j c i := by
  have hcalls := step_calls hstep
  obtain ⟨rfl, hj, hheld, todo, got, hph, htodo⟩ := id hs
  have hdone : s.script t = .done :=
    (h.outside (t := t) (k := s.depth t) (by simp [hph]) (by simp [hph])).2
  -- a call that is neither idle nor in its section is the innermost one
  have htop : s.calls.phase (t, k) ≠ .idle →
      (∀ c held p, s.calls.phase (t, k) ≠ .inside c held p) →
      k = s.depth t ∧ s.calls.phase (t, k) = .locking c todo got := by
    intro hidle hinside
    obtain ⟨rfl, -⟩ := h.outside hidle hinside
    exact ⟨rfl, hph⟩
  cases l with
  | invoke v c' =>
    obtain rfl : v = (t, k) := hl
    cases k with
    | zero =>
      have hidle := (step_invoke.mp hcalls).1
      obtain ⟨c₁, held₁, p₁, hph₁⟩ := (h.stack t).inside (Nat.zero_lt_of_lt hj)
      exact absurd (hidle.symm.trans hph₁) nofun
    | succ k =>
      obtain ⟨next, calls, hscript, -⟩ := step_callback.mp hstep
      exact absurd (hdone.symm.trans hscript) nofun
  | lock v i' =>
    obtain rfl : v = (t, k) := hl
    obtain ⟨calls, hcalls, rfl⟩ := move_eq_some.mp hstep
    obtain ⟨c', todo', got', hph', hmem, hfree, rfl⟩ := step_lock.mp hcalls
    obtain ⟨rfl, hlocking⟩ := htop (by simp [hph']) (by simp [hph'])
    obtain ⟨rfl, rfl, rfl⟩ := Phase.locking.inj (hph'.symm.trans hlocking)
    have hne : i ≠ i' := by
      rintro rfl
      rw [(h.coherent.owned.locked_iff i).mpr ⟨(t, j), hheld⟩] at hfree
      cases hfree
    exact hs.keep _ rfl ((List.mem_erase_of_ne hne).mpr htodo)
  | unlock v i' =>
    obtain rfl : v = (t, k) := hl
    obtain ⟨calls, hcalls, rfl⟩ := move_eq_some.mp hstep
    obtain ⟨c', todo', got', hph', -, rfl⟩ | ⟨c', r', held', hph', -, rfl⟩ :=
      step_unlock.mp hcalls
    · obtain ⟨rfl, hlocking⟩ := htop (by simp [hph']) (by simp [hph'])
      obtain ⟨rfl, rfl, rfl⟩ := Phase.locking.inj (hph'.symm.trans hlocking)
      exact hs.keep _ rfl (List.mem_cons_of_mem i' htodo)
    · exact absurd (hph'.symm.trans (htop (by simp [hph']) (by simp [hph'])).2) nofun
  | enter v =>
    obtain rfl : v = (t, k) := hl
    obtain ⟨c', got', hph', -⟩ := step_enter.mp hcalls
    obtain ⟨-, rfl, -⟩ :=
      Phase.locking.inj (hph'.symm.trans (htop (by simp [hph']) (by simp [hph'])).2)
    cases htodo
  | exec v =>
    obtain rfl : v = (t, k) := hl
    obtain ⟨calls, rfl, -, hcalls, -⟩ := step_exec.mp hstep
    obtain ⟨c', held', p', m, q, hph', -⟩ := Locks.step_exec.mp hcalls
    exact absurd (hph'.symm.trans hph) nofun
  | finish v =>
    obtain rfl : v = (t, k) := hl
    obtain ⟨calls, rfl, -, hcalls, -⟩ := step_finish.mp hstep
    obtain ⟨c', held', r', hph', -⟩ := Locks.step_finish.mp hcalls
    exact absurd (hph'.symm.trans hph) nofun
  | respond v c' r' =>
    obtain rfl : v = (t, k) := hl
    have hph' := (step_respond.mp hcalls).1
    exact absurd (hph'.symm.trans (htop (by simp [hph']) (by simp [hph'])).2) nofun

theorem stuck_step (h : Orderly R code callback s) (hs : Stuck s t d j c i)
    (hstep : step code callback s l = some s') : Stuck s' t d j c i := by
  by_cases ht : t = (mover l).1
  · exact stuck_step_self h hs (k := (mover l).2) (ht ▸ rfl) hstep
  · have hwaiting := waiting_of_ne hstep ht
    have hphase : ∀ k, s'.calls.phase (t, k) = s.calls.phase (t, k) :=
      fun k => phase_of_ne (step_calls hstep) fun heq => ht (congrArg Prod.fst heq)
    refine ⟨?_, hs.outer, ?_, ?_⟩
    · rw [State.depth, hwaiting]
      exact hs.depth
    · rw [hphase]
      exact hs.held
    · rw [hphase]
      exact hs.waits

/-- A callback calls, and needs a mutex that its thread holds. -/
theorem stuck_of_callback {k : Nat} (hj : j ≤ k)
    (hheld : i ∈ (s.calls.phase (t, j)).held) (hi : i ∈ (code c).locks)
    (hstep : step code callback s (.invoke (t, k + 1) c) = some s') :
    Stuck s' t (k + 1) j c i := by
  obtain ⟨next, calls, -, rfl, hcalls, rfl⟩ := step_callback.mp hstep
  obtain ⟨-, rfl⟩ := step_invoke.mp hcalls
  refine ⟨?_, Nat.lt_succ_of_le hj, ?_, (code c).locks, [], State.go_phase_self _ _ _, hi⟩
  · show (Function.update s.waiting t (next :: s.waiting t) t).length = s.depth t + 1
    rw [Function.update_self]
    rfl
  · rw [State.go_phase_ne _ _ _ fun heq => (Nat.lt_succ_of_le hj).ne (Prod.mk.inj heq).2]
    exact hheld

/-- **A callback that needs a mutex of its own thread never returns**, whatever the other
threads do. -/
theorem stuck_run (hkept : R.Kept code callback) (h : Orderly R code callback s)
    (hs : Stuck s t d j c i) (hrun : Leads (step code callback) (ClientOk R) s s') :
    Stuck s' t d j c i := by
  have hboth : Orderly R code callback s' ∧ Stuck s' t d j c i :=
    hrun.invariant (I := fun s => Orderly R code callback s ∧ Stuck s t d j c i)
      (fun _ _ _ hok h hstep => ⟨orderly_step hkept h.1 hok hstep, stuck_step h.1 h.2 hstep⟩)
      ⟨h, hs⟩
  exact hboth.2

end Stuck

end Callbacks

end Lib
