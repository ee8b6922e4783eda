import LomiriApi.Lib.Layers
import LomiriApi.ResourcePtr.ThreadWorld

/-!
# Deleters that use `ResourcePtr`s

The resource of a `ResourcePtr` may have `ResourcePtr`s of its own, which its deleter
deallocates; and a deleter may use any object that it can reach. But `reset`, `dealloc`
and the move assignment call the deleter with the mutex held, and `m_` is not recursive.

- `Deleters`: what deleters do, call by call. `called`: an assignment to `calls` calls a
  deleter.
- `nested_refines_world`: the calls of the clients and of the deleters can be told from
  calls that are executed one after the other as little as those of clients alone.
- `nested_complete`: there is no deadlock if the objects lie in layers and deleters only
  use objects of lower layers, as they do if they belong to the types of objects.
- `reentry_never_returns`: a deleter that uses an object that its thread is at work on
  never returns.
-/

namespace LomiriApi

open Lib

namespace Threads

variable {n : Nat} {R D τ : Type}

/-- What each deleter does with the shared objects when it is called with a resource. A
script may depend on the answers it gets, so a deleter can decide as it goes. -/
abbrev Deleters (n : Nat) (R D : Type) := DeleterCall R D → Script (Call n R D) (Answer R D)

/-- What an assignment calls: a new entry of `calls` is a call of a deleter. The call is
made at that statement, with the mutex of the member function still locked. -/
def called (deleters : Deleters n R D) (o o' : Shared R D) : Script (Call n R D) (Answer R D) :=
  match o'.calls.drop o.calls.length with
  | [c] => deleters c
  | _ => .done

/-- Threads and objects, with the calls of the deleters in progress on a stack for each
thread. -/
abbrev NestedState (τ : Type) (n : Nat) (R D : Type) :=
  Callbacks.State τ (Fin n) (Shared R D) (Call n R D) (Answer R D)

section Called

variable (deleters : Deleters n R D) (o : Shared R D)

@[simp] theorem called_assign (p : ResourcePtr R D) :
    called deleters o { o with ptr := p } = .done := by
  simp [called]

@[simp] theorem called_delete (c : DeleterCall R D) :
    called deleters o { o with calls := o.calls ++ [c] } = deleters c := by
  simp [called]

end Called

/-! ## Layers of objects -/

/-- The object whose member function is called, and whose mutex is among those it locks. -/
def Call.object : Call n R D → Fin n
  | .reset this _ _ | .release this | .dealloc this _ | .get this | .hasResource this
  | .moveAssign this _ _ _ | .swap this _ | .compare _ this _ => this

/-- The operands are in the same layer, and a deleter that is moved in belongs there. Two
mutexes are locked together by `std::lock`, so operands of one layer do no harm. -/
def Call.InLayer (level : Fin n → Nat) (rank : D → Nat) : Call n R D → Prop
  | .moveAssign this src _ _ => rank src.delete_ ≤ level this
  | .swap this other => level this = level other
  | .compare _ this rhs => level this = level rhs
  | _ => True

/-- Deleters only use objects in lower layers than their own. A resource that consists of
`ResourcePtr`s gives such layers by itself. -/
def Descends (level : Fin n → Nat) (rank : D → Nat) (deleters : Deleters n R D) : Prop :=
  ∀ c, (deleters c).All fun call => call.InLayer level rank ∧ level call.object < rank c.deleter

/-- What clients and deleters keep to, in the terms of the library: which objects a member
function may leave behind, and what may be called from within which call. -/
def layerRules (level : Fin n → Nat) (rank : D → Nat) :
    Callbacks.Rules (Fin n) (Shared R D) (Call n R D) where
  fit i o := rank o.ptr.delete_ ≤ level i
  ok c := c.InLayer level rank
  within c c' := c'.InLayer level rank ∧ level c'.object < level c.object

section Layers

variable {level : Fin n → Nat} {rank : D → Nat} {deleters : Deleters n R D}

/-- A deleter that belongs into the layer of the object only uses objects below. -/
theorem Descends.all (h : Descends level rank deleters) {c : DeleterCall R D} {call : Call n R D}
    (hc : rank c.deleter ≤ level call.object) :
    (deleters c).All ((layerRules level rank).within call) :=
  (h c).mono fun _ hcall => ⟨hcall.1, hcall.2.trans_le hc⟩

@[simp] theorem layerRules_fit (i : Fin n) (o : Shared R D) :
    (layerRules level rank).fit i o ↔ rank o.ptr.delete_ ≤ level i := Iff.rfl

/-- The member functions keep to the layers if the deleters do. -/
theorem layers_kept [DecidableEq R] [LT R] [DecidableLT R] (h : Descends level rank deleters) :
    (layerRules level rank).Kept code (called deleters) where
  ok _ _ h := h.1
  body c hc := by
    have hall : ∀ d r, rank d ≤ level c.object →
        (deleters ⟨d, r⟩).All ((layerRules level rank).within c) := fun d r hd => h.all hd
    cases c with
    | reset this r throws =>
      change ∀ d r, rank d ≤ level this → _ at hall
      simp +contextual [code, guarded, reset, member, assign, setResource, setInitialized,
        callDelete, Script.All, hall]
    | release this =>
      simp [code, guarded, release, member, assign, setInitialized, Script.All]
    | dealloc this throws =>
      change ∀ d r, rank d ≤ level this → _ at hall
      simp +contextual [code, guarded, dealloc, member, assign, setInitialized, callDelete,
        Script.All, hall]
    | get this => simp [code, guarded, get, member]
    | hasResource this => simp [code, guarded, hasResource, member]
    | moveAssign this src moved throws =>
      have hsrc : rank src.delete_ ≤ level this := hc
      change ∀ d r, rank d ≤ level this → _ at hall
      simp +contextual [code, guarded, moveAssign, takeOver, member, assign, setResource,
        setDelete, setInitialized, callDelete, Script.All, hall, hsrc]
    | swap this other =>
      have hlevel : level this = level other := hc
      simp only [code, guardedBoth]
      split
      case isTrue h => exact trivial
      case isFalse h =>
        simp +contextual [swapMembers, member, assign, setResource, setDelete, setInitialized,
          Script.All, hlevel]
    | compare op this rhs =>
      simp only [code, guardedBoth]
      split
      case isTrue h => exact trivial
      case isFalse h => cases op <;> simp [compare, equal, less, lessEqual, member]

theorem layered [DecidableEq R] [LT R] [DecidableLT R] (level : Fin n → Nat) (rank : D → Nat) :
    Callbacks.Layered (layerRules level rank) (code : Call n R D → _) level
      (fun c => level c.object) where
  locks c hc i hi := by
    cases c with
    | swap this other =>
      have hlevel : level this = level other := hc
      simp only [code, guardedBoth] at hi
      split at hi
      · cases hi
      · rcases List.mem_pair.mp hi with rfl | rfl
        · rfl
        · exact hlevel.symm
    | compare op this rhs =>
      have hlevel : level this = level rhs := hc
      simp only [code, guardedBoth] at hi
      split at hi
      · cases hi
      · rcases List.mem_pair.mp hi with rfl | rfl
        · rfl
        · exact hlevel.symm
    | _ =>
      obtain rfl := List.mem_singleton.mp hi
      rfl
  within _ _ h := h.2

end Layers

/-! ## Runs -/

section Runs

variable [DecidableEq R] [LT R] [DecidableLT R] [DecidableEq D] [DecidableEq τ]
  {deleters : Deleters n R D} {m : Fin n → Shared R D} {ls ls' : List (Label (τ × Nat) n R D)}
  {s s' s'' : NestedState τ n R D}

/-- One move of one thread, which may be in a deleter. -/
def nestedStep (deleters : Deleters n R D) :
    NestedState τ n R D → Label (τ × Nat) n R D → Option (NestedState τ n R D) :=
  Callbacks.step code (called deleters)

/-- **Whatever deleters do with other objects**, the calls of a run can be put in an order,
in real time, in which a single thread could have made them one after the other, those of
the clients and those of the deleters. The call at depth `k` of the thread `t` counts as
one of `(t, k)`. -/
theorem nested_refines_world {w : World R D} (h : Shows w m)
    (hrun : run (nestedStep deleters) (Callbacks.State.initial m) ls = some s)
    (hq : s.Quiescent) :
    ∃ (cs : List ((τ × Nat) × Call n R D × Answer R D)) (w' : World R D),
      run World.executeAs w cs = some w' ∧ Shows w' s.calls.mem ∧
      (∀ v, Locks.ofThread v cs = Locks.answersOf v (events ls)) ∧
      Locks.InRealTime (events ls) cs :=
  exists_world_run h (Callbacks.run_calls hrun) hq

/-- The first of two objects. -/
def firstObject : Fin 2 := ⟨0, Nat.zero_lt_two⟩

/-- The second of two objects. -/
def secondObject : Fin 2 := ⟨1, Nat.one_lt_two⟩

/-- A deleter that deallocates the first object, and one that does nothing. -/
def sampleDeleters : Deleters 2 Nat Nat := fun c =>
  if c.deleter = 10 then .call (.dealloc firstObject false) fun _ => .done else .done

/-- One thread deallocates the second object; its deleter has to wait for the first one,
which the other thread is at work on. -/
def sampleNesting : List (Label (Bool × Nat) 2 Nat Nat) :=
  List.flatten [
    [.invoke (true, 0) (.dealloc secondObject false), .lock (true, 0) secondObject,
      .enter (true, 0)],
    List.replicate 5 (.exec (true, 0)),
    [.invoke (false, 0) (.reset firstObject 5 false), .lock (false, 0) firstObject,
      .invoke (true, 1) (.dealloc firstObject false), .enter (false, 0)]]

/-- Then the other thread comes back, and the one. -/
def sampleReturn : List (Label (Bool × Nat) 2 Nat Nat) :=
  List.flatten [
    List.replicate 6 (.exec (false, 0)),
    [.finish (false, 0), .unlock (false, 0) firstObject,
      .respond (false, 0) (.reset firstObject 5 false) (.outcome .returned),
      .lock (true, 1) firstObject, .enter (true, 1)],
    List.replicate 5 (.exec (true, 1)),
    [.finish (true, 1), .unlock (true, 1) firstObject,
      .respond (true, 1) (.dealloc firstObject false) (.outcome .returned), .finish (true, 0),
      .unlock (true, 0) secondObject,
      .respond (true, 0) (.dealloc secondObject false) (.outcome .returned)]]

theorem sampleNesting_isSome : (run (nestedStep sampleDeleters)
    (Callbacks.State.initial sampleObjects) sampleNesting).isSome = true := by decide

theorem sampleReturn_isSome : (run (nestedStep sampleDeleters)
    (Callbacks.State.initial sampleObjects) (sampleNesting ++ sampleReturn)).isSome = true := by
  decide

/-- While the deleter waits. -/
def sampleNested : NestedState Bool 2 Nat Nat := Option.get _ sampleNesting_isSome

/-- When both threads have come back. -/
def sampleReturned : NestedState Bool 2 Nat Nat := Option.get _ sampleReturn_isSome

theorem sampleNesting_run : run (nestedStep sampleDeleters)
    (Callbacks.State.initial sampleObjects) sampleNesting = some sampleNested :=
  (Option.some_get sampleNesting_isSome).symm

theorem sampleReturn_run : run (nestedStep sampleDeleters)
    (Callbacks.State.initial sampleObjects) (sampleNesting ++ sampleReturn)
      = some sampleReturned := (Option.some_get sampleReturn_isSome).symm

theorem sampleReturned_quiescent : sampleReturned.Quiescent := by
  rintro ⟨t, k⟩
  match t, k with
  | true, 0 => rfl
  | true, 1 => rfl
  | true, k + 2 => rfl
  | false, 0 => rfl
  | false, k + 1 => rfl

theorem nested_refines_world_sampleReturn :
    ∃ (cs : List ((Bool × Nat) × Call 2 Nat Nat × Answer Nat Nat)) (w' : World Nat Nat),
      run World.executeAs sampleWorld cs = some w' ∧ Shows w' sampleReturned.calls.mem := by
  obtain ⟨cs, w', hrun, hshow, -⟩ :=
    nested_refines_world sampleWorld_shows sampleReturn_run sampleReturned_quiescent
  exact ⟨cs, w', hrun, hshow⟩

/-! ### No deadlock in layers -/

/-- **No data race and no deadlock**, if each deleter only uses objects in layers below its
own, and the clients install a deleter only in objects of its own layer or a higher one, and
swap and compare objects of the same layer. In every state of every run: two calls that are
about to touch the same object are the same call, and its thread has the object's mutex; and
all calls in progress can return without any client calling anew. -/
theorem nested_complete [Fintype τ] {level : Fin n → Nat} {rank : D → Nat}
    (hdeleters : Descends level rank deleters) (hm : ∀ i, rank (m i).ptr.delete_ ≤ level i)
    (hclients : ∀ t c, .invoke (t, 0) c ∈ ls → c.InLayer level rank)
    (hrun : run (nestedStep deleters) (Callbacks.State.initial m) ls = some s) :
    (∀ v u i, (s.calls.phase v).touches = some i → (s.calls.phase u).touches = some i →
      v = u ∧ i ∈ (s.calls.phase v).held) ∧
    ∃ ls' s', (∀ l ∈ ls', Callbacks.isClients l = false) ∧
      run (nestedStep deleters) s ls' = some s' ∧ s'.Quiescent := by
  have hkept := layers_kept hdeleters
  have horderly : Callbacks.Orderly (layerRules level rank) code (called deleters) s := by
    refine Callbacks.orderly_run hkept (Callbacks.orderly_initial hm) ⟨ls, fun l hl => ?_, hrun⟩
    cases l with
    | invoke tk c =>
      obtain ⟨t, k⟩ := tk
      cases k with
      | zero => exact hclients t c hl
      | succ k => trivial
    | _ => trivial
  refine ⟨fun v u i hv hu => horderly.coherent.race_free hv hu, ?_⟩
  obtain ⟨s', ⟨ls', hquiet, hrun'⟩, hq⟩ :=
    Callbacks.can_complete_all hkept (layered level rank) horderly
  exact ⟨ls', s', hquiet, hrun', hq⟩

theorem nested_complete_sampleNesting :
    ∃ ls' s', (∀ l ∈ ls', Callbacks.isClients l = false) ∧
      run (nestedStep sampleDeleters) sampleNested ls' = some s' ∧ s'.Quiescent := by
  have hdeleters : Descends (fun i => i.val) (fun d => d / 10) sampleDeleters := by
    rintro ⟨d, r⟩
    by_cases hd : d = 10
    · subst hd
      exact ⟨⟨trivial, by simp [Call.object, firstObject]⟩, fun _ => trivial⟩
    · simp [sampleDeleters, hd, Script.All]
  have hclients : ∀ t c, Locks.Label.invoke (t, 0) c ∈ sampleNesting →
      c.InLayer (fun i => i.val) fun d => d / 10 := by
    intro t c hc
    simp only [sampleNesting, List.replicate, List.flatten_cons, List.flatten_nil,
      List.mem_append, List.mem_cons, List.not_mem_nil, Locks.Label.invoke.injEq] at hc
    obtain ⟨-, rfl⟩ | ⟨-, rfl⟩ : (t, 0) = (true, 0) ∧ c = .dealloc secondObject false ∨
        (t, 0) = (false, 0) ∧ c = .reset firstObject 5 false := by simpa using hc
    · trivial
    · trivial
  exact (nested_complete hdeleters (by decide) hclients sampleNesting_run).2

/-! ### Deleters that come back to the object -/

/-- **A deleter that uses an object that its thread is at work on never returns.** When a
thread holds the mutex of an object, in the call at depth `j`, and a deleter calls a member
function that takes this mutex, then this call waits for it, and the thread holds it, for
ever after. -/
theorem reentry_never_returns {t : τ} {j k : Nat} {i : Fin n} {c : Call n R D}
    (hrun : run (nestedStep deleters) (Callbacks.State.initial m) ls = some s) (hj : j ≤ k)
    (hheld : i ∈ (s.calls.phase (t, j)).held) (hi : i ∈ (code c).locks)
    (hcall : nestedStep deleters s (.invoke (t, k + 1) c) = some s')
    (hrun' : run (nestedStep deleters) s' ls' = some s'') :
    (∃ todo got, s''.calls.phase (t, k + 1) = .locking c todo got ∧ i ∈ todo) ∧
      i ∈ (s''.calls.phase (t, j)).held := by
  have hkept := Callbacks.Rules.none_kept (code : Call n R D → _) (called deleters)
  have hs : Callbacks.Orderly .none code (called deleters) s :=
    Callbacks.orderly_run hkept (Callbacks.orderly_initial fun _ => trivial)
      ⟨ls, fun l _ => Callbacks.clientOk_none l, hrun⟩
  have hs' := Callbacks.orderly_step hkept hs (Callbacks.clientOk_none _) hcall
  have hstuck := Callbacks.stuck_run hkept hs' (Callbacks.stuck_of_callback hj hheld hi hcall)
    ⟨ls', fun l _ => Callbacks.clientOk_none l, hrun'⟩
  exact ⟨hstuck.waits, hstuck.held⟩

/-- A deleter that asks its own object for the resource. -/
def sampleReentry : Deleters 2 Nat Nat := fun c =>
  if c.deleter = 10 then .call (.get secondObject) fun _ => .done else .done

/-- A thread deallocates the second object, up to the call of the deleter. -/
def sampleDealloc : List (Label (Bool × Nat) 2 Nat Nat) :=
  [.invoke (true, 0) (.dealloc secondObject false), .lock (true, 0) secondObject, .enter (true, 0)]
    ++ List.replicate 5 (.exec (true, 0))

theorem sampleDealloc_isSome : (run (nestedStep sampleReentry)
    (Callbacks.State.initial sampleObjects) sampleDealloc).isSome = true := by decide

/-- The deleter is about to call. -/
def sampleCalling : NestedState Bool 2 Nat Nat := Option.get _ sampleDealloc_isSome

theorem sampleCalling_isSome : (nestedStep sampleReentry sampleCalling
    (.invoke (true, 1) (.get secondObject))).isSome = true := by decide

/-- The deleter has called. -/
def sampleCalled : NestedState Bool 2 Nat Nat := Option.get _ sampleCalling_isSome

/-- Meanwhile another thread swaps the two, and waits as well. -/
def sampleSwap : List (Label (Bool × Nat) 2 Nat Nat) :=
  [.invoke (false, 0) (.swap firstObject secondObject), .lock (false, 0) firstObject]

theorem sampleSwap_isSome :
    (run (nestedStep sampleReentry) sampleCalled sampleSwap).isSome = true := by decide

theorem reentry_never_returns_sampleCalled :
    ∃ todo got, (Option.get _ sampleSwap_isSome).calls.phase (true, 1)
      = .locking (.get secondObject) todo got ∧ secondObject ∈ todo :=
  (reentry_never_returns (j := 0) (Option.some_get sampleDealloc_isSome).symm (Nat.le_refl 0)
    (by decide) (by decide) (Option.some_get sampleCalling_isSome).symm
    (Option.some_get sampleSwap_isSome).symm).1

end Runs

end Threads

end LomiriApi
