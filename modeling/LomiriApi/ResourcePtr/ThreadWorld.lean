import LomiriApi.Lib.Sequential
import LomiriApi.Lib.Simulation
import LomiriApi.ResourcePtr.ThreadSafety

/-!
# What threads do to `ResourcePtr`s, one operation can do after the other

`ResourcePtr/World.lean` is the model of a single thread. This module connects it to the
model of many threads.

- `World.execute`: a call of a thread as an operation of the single-threaded model. The
  temporary that a move assignment takes from is an object of its own there.
- `Shows`: the world has the shared objects at the first addresses, and the same deleter
  calls, in some order.
- `spec_execute`: one call comes to the same in both models.
- `threads_refine_world`: so does every run that ends with no call in progress.
-/

namespace LomiriApi

open Lib

namespace World

variable {n : Nat} {R D τ : Type} [DecidableEq R] [LT R] [DecidableLT R]

/-- An operation whose outcome is the answer. -/
def perform (w : World R D) (throws : Bool) (op : Op R D) :
    Option (World R D × Threads.Answer R D) :=
  (w.apply throws op).map fun p => (p.1, .outcome p.2)

/-- A call, as an operation on a world. -/
def execute (w : World R D) : Threads.Call n R D → Option (World R D × Threads.Answer R D)
  | .reset this r throws => w.perform throws (.reset this r)
  | .release this => w.perform false (.release this)
  | .dealloc this throws => w.perform throws (.dealloc this)
  | .get this => w.perform false (.get this)
  | .hasResource this => w.perform false (.hasResource this)
  | .moveAssign this src moved throws => do
    -- the temporary is a new object
    let r := w.objs.length
    let (w, o) ← (w.construct src).apply throws (.moveAssign this r moved)
    return (w, .assigned o (← w.get r))
  | .swap this other => w.perform false (.swap this other)
  | .compare op this rhs => do
    return (w, .compared (op.operator this rhs (← w.get this) (← w.get rhs)))

/-- The same, with the answer that the call is to have. A sequence of such calls is one
that a single thread can make with these answers. -/
def executeAs [DecidableEq D] (w : World R D) (e : τ × Threads.Call n R D × Threads.Answer R D) :
    Option (World R D) :=
  (w.execute e.2.1).bind fun p => if p.2 = e.2.2 then some p.1 else none

end World

namespace Threads

variable {n : Nat} {R D τ : Type}

/-- The world has the shared objects at the first `n` addresses, and their deleter calls.
The order of calls of different objects is not part of it, as threads do not agree on
one. -/
structure Shows (w : World R D) (m : Fin n → Shared R D) : Prop where
  objs : ∀ i : Fin n, w.get i = some (m i).ptr
  calls : (w.calls : Multiset (DeleterCall R D)) = ∑ i, ((m i).calls : Multiset _)

theorem sum_calls_update (m : Fin n → Shared R D) (this : Fin n) (p : ResourcePtr R D)
    (pending : Option (DeleterCall R D)) :
    (∑ i, ((update m this p pending i).calls : Multiset (DeleterCall R D)))
      = (∑ i, ((m i).calls : Multiset _)) + (pending.toList : Multiset _) := by
  have hsum := sum_update_add (fun o : Shared R D => (o.calls : Multiset (DeleterCall R D))) m
    this ⟨p, (m this).calls ++ pending.toList⟩
  refine add_right_cancel (hsum.trans ?_)
  show _ + Multiset.ofList ((m this).calls ++ pending.toList) = _
  rw [← Multiset.coe_add, add_assoc, add_comm (Multiset.ofList pending.toList)]

/-- One object changes, and a pending deleter call is made. -/
theorem Shows.update {w : World R D} {m : Fin n → Shared R D} (h : Shows w m) (this : Fin n)
    (p : ResourcePtr R D) (pending : Option (DeleterCall R D)) :
    Shows ((w.put this p).call pending) (update m this p pending) where
  objs := by
    intro i
    show (w.put this p).get i = some (Threads.update m this p pending i).ptr
    by_cases hi : i = this
    · subst hi
      rw [World.get_put_self (h.objs i)]
      simp [Threads.update]
    · have hne : this.val ≠ i.val := fun heq => hi (Fin.ext heq.symm)
      rw [World.get_put_ne w hne, h.objs i]
      simp [Threads.update, hi]
  calls := by
    rw [World.call_calls, sum_calls_update, ← h.calls, Multiset.coe_add]
    rfl

/-- Objects at other addresses do not matter. The temporaries that are moved from are
there. -/
theorem Shows.of_get {w w' : World R D} {m : Fin n → Shared R D} (h : Shows w m)
    (hget : ∀ i : Fin n, w'.get i = w.get i) (hcalls : w'.calls = w.calls) : Shows w' m :=
  ⟨fun i => (hget i).trans (h.objs i), hcalls ▸ h.calls⟩

/-- The address of a new object is none of the first `n`. -/
theorem Shows.lt_length {w : World R D} {m : Fin n → Shared R D} (h : Shows w m) (i : Fin n) :
    i.val < w.objs.length :=
  (List.getElem?_eq_some_iff.mp (World.get_eq_some.mp (h.objs i))).1

theorem Shows.construct {w : World R D} {m : Fin n → Shared R D} (h : Shows w m)
    (p : ResourcePtr R D) : Shows (w.construct p) m :=
  ⟨fun i => World.get_construct_old (h.objs i) p, h.calls⟩

variable [DecidableEq R] [LT R] [DecidableLT R]

theorem execute_swap {w : World R D} {m : Fin n → Shared R D} (h : Shows w m)
    (this other : Fin n) :
    ∃ w', w.execute (.swap this other) = some (w', (spec (.swap this other) m).2) ∧
      Shows w' (spec (.swap this other) m).1 := by
  by_cases hne : this = other
  · subst hne
    refine ⟨w, ?_, ?_⟩
    · simp [World.execute, World.perform, World.apply, World.swap_self (h.objs this), spec]
    · simpa [spec, Threads.update] using h
  · have hval : this.val ≠ other.val := fun heq => hne (Fin.ext heq)
    refine ⟨(w.put this (m other).ptr).put other (m this).ptr, ?_, ?_⟩
    · simp [World.execute, World.perform, World.apply,
        World.swap_ne (h.objs this) (h.objs other) hval, spec]
    · have hshow := (h.update this (m other).ptr none).update other (m this).ptr none
      simpa [World.call_none, spec] using hshow

theorem execute_moveAssign {w : World R D} {m : Fin n → Shared R D} (h : Shows w m)
    (this : Fin n) (src : ResourcePtr R D) (moved : R) (throws : Bool) :
    ∃ w', w.execute (.moveAssign this src moved throws)
        = some (w', (spec (.moveAssign this src moved throws) m).2) ∧
      Shows w' (spec (.moveAssign this src moved throws) m).1 := by
  have hnew : (w.construct src).get w.objs.length = some src := World.get_construct_new w src
  have hold := h.construct src
  have hne : ∀ i : Fin n, i.val ≠ w.objs.length := fun i => Nat.ne_of_lt (h.lt_length i)
  have hassign := World.moveAssign_ne (hold.objs this) hnew (hne this) moved throws
  cases hthrew : (m this).ptr.dealloc.2.isSome && throws with
  | true =>
    rw [hthrew, if_pos rfl] at hassign
    refine ⟨((w.construct src).put this (m this).ptr.dealloc.1).call (m this).ptr.dealloc.2, ?_, ?_⟩
    · have hget : (((w.construct src).put this (m this).ptr.dealloc.1).call
          (m this).ptr.dealloc.2).get w.objs.length = some src :=
        (World.get_put_ne _ (hne this) _).trans hnew
      simp [World.execute, World.apply, hassign, hget, spec, hthrew]
    · have hshow := hold.update this (m this).ptr.dealloc.1 (m this).ptr.dealloc.2
      simpa [spec, hthrew] using hshow
  | false =>
    rw [hthrew, if_neg (by simp)] at hassign
    refine ⟨(((w.construct src).put this src).put w.objs.length ⟨moved, src.delete_, false⟩).call
      (m this).ptr.dealloc.2, ?_, ?_⟩
    · have hget : ((((w.construct src).put this src).put w.objs.length
          ⟨moved, src.delete_, false⟩).call (m this).ptr.dealloc.2).get w.objs.length
          = some ⟨moved, src.delete_, false⟩ :=
        World.get_put_self ((World.get_put_ne _ (hne this) _).trans hnew) _
      simp [World.execute, World.apply, hassign, hget, spec, hthrew]
    · have hshow := hold.update this src (m this).ptr.dealloc.2
      have hrest : Shows ((((w.construct src).put this src).put w.objs.length
          ⟨moved, src.delete_, false⟩).call (m this).ptr.dealloc.2)
          (Threads.update m this src (m this).ptr.dealloc.2) :=
        hshow.of_get (fun i => World.get_put_ne _ (hne i).symm _) rfl
      simpa [spec, hthrew] using hrest

/-- **One call.** The call in one piece and the operation of the single-threaded model come
to the same objects, the same deleter calls and the same answer. The two models are written
independently, statement by statement, so this is what compares them. -/
theorem spec_execute {w : World R D} {m : Fin n → Shared R D} (h : Shows w m) (c : Call n R D) :
    ∃ w', w.execute c = some (w', (spec c m).2) ∧ Shows w' (spec c m).1 := by
  cases c with
  | reset this r throws =>
    refine ⟨_, ?_, h.update this ((m this).ptr.reset r).1 ((m this).ptr.reset r).2⟩
    simp only [World.execute, World.perform, World.apply_reset (h.objs this), Option.map_some]
    rfl
  | release this =>
    cases hr : (m this).ptr.release with
    | error e =>
      refine ⟨w, ?_, ?_⟩
      · simp only [World.execute, World.perform, World.apply_release (h.objs this), hr, spec]
        rfl
      · simpa only [spec, hr] using h
    | ok rq =>
      obtain ⟨r, q⟩ := rq
      refine ⟨(w.put this q).call none, ?_, ?_⟩
      · simp only [World.execute, World.perform, World.apply_release (h.objs this), hr, spec]
        simp [World.call_none]
      · simpa only [spec, hr] using h.update this q none
  | dealloc this throws =>
    refine ⟨_, ?_, h.update this (m this).ptr.dealloc.1 (m this).ptr.dealloc.2⟩
    simp only [World.execute, World.perform, World.apply_dealloc (h.objs this), Option.map_some]
    rfl
  | get this =>
    cases hg : (m this).ptr.get with
    | error e =>
      refine ⟨w, ?_, ?_⟩
      · simp only [World.execute, World.perform, World.apply_get (h.objs this), hg, spec]
        rfl
      · simpa only [spec, hg] using h
    | ok r =>
      refine ⟨w, ?_, ?_⟩
      · simp only [World.execute, World.perform, World.apply_get (h.objs this), hg, spec]
        rfl
      · simpa only [spec, hg] using h
  | hasResource this =>
    refine ⟨w, ?_, h⟩
    simp [World.execute, World.perform, World.apply, h.objs, spec]
  | moveAssign this src moved throws => exact execute_moveAssign h this src moved throws
  | swap this other => exact execute_swap h this other
  | compare op this rhs =>
    refine ⟨w, ?_, h⟩
    simp [World.execute, h.objs, spec]

/-! ## Whole runs -/

variable [DecidableEq D]

/-- A call with the answer that it is to have. -/
theorem executeAs_of_seqStep {w : World R D} {m m' : Fin n → Shared R D}
    {e : τ × Call n R D × Answer R D} (h : Shows w m) (hstep : Locks.seqStep spec m e = some m') :
    ∃ w', w.executeAs e = some w' ∧ Shows w' m' := by
  obtain ⟨t, c, r⟩ := e
  by_cases hr : (spec c m).2 = r
  · obtain rfl : (spec c m).1 = m' := Option.some.inj ((if_pos hr).symm.trans hstep)
    obtain ⟨w', hw', hshow⟩ := spec_execute h c
    refine ⟨w', ?_, hshow⟩
    rw [World.executeAs, hw', Option.bind_some, if_pos hr]
  · exact absurd ((if_neg hr).symm.trans hstep) (by simp)

/-- The calls of a run, in an order in which a single thread can make them. -/
theorem exists_world_run [DecidableEq τ] {w : World R D} {m : Fin n → Shared R D}
    {ls : List (Label τ n R D)} {s : State τ n R D} (h : Shows w m)
    (hrun : run step (Locks.State.initial m) ls = some s) (hq : s.Quiescent) :
    ∃ (cs : List (τ × Call n R D × Answer R D)) (w' : World R D),
      run World.executeAs w cs = some w' ∧ Shows w' s.mem ∧
      (∀ t, Locks.ofThread t cs = Locks.answersOf t (events ls)) ∧
      Locks.InRealTime (events ls) cs := by
  obtain ⟨cs, hcs, horder, htime⟩ := Locks.sequential_calls body_run hrun hq
  obtain ⟨w', hw', hshow⟩ := run_simulates_map (C := fun _ => True)
    (fun _ _ _ _ _ h hstep => executeAs_of_seqStep h hstep) (fun _ _ => trivial) h hcs
  rw [List.map_id'] at hw'
  exact ⟨cs, w', hw', hshow, horder, htime⟩

/-- **Threads refine the single-threaded model.** When a run of the threads ends with no
call in progress, there is a sequence of operations of the single-threaded model that
leads to the same objects and the same deleter calls; each thread finds its own calls
in it, in its own order and with the answers that it got. -/
theorem threads_refine_world [DecidableEq τ] {w : World R D} {m : Fin n → Shared R D}
    {ls : List (Label τ n R D)} {s : State τ n R D} (h : Shows w m)
    (hrun : run step (Locks.State.initial m) ls = some s) (hq : s.Quiescent) :
    ∃ (cs : List (τ × Call n R D × Answer R D)) (w' : World R D),
      run World.executeAs w cs = some w' ∧ Shows w' s.mem ∧
      ∀ t, Locks.ofThread t cs = Locks.answersOf t (events ls) := by
  obtain ⟨cs, w', hw', hshow, horder, -⟩ := exists_world_run h hrun hq
  exact ⟨cs, w', hw', hshow, horder⟩

/-- The objects of `sampleObjects`. -/
def sampleWorld : World Nat Nat := ⟨[some ⟨1, 0, true⟩, some ⟨2, 10, true⟩], []⟩

theorem sampleWorld_shows : Shows sampleWorld sampleObjects where
  objs := by decide
  calls := by decide

theorem threads_refine_world_sampleRun :
    ∃ (cs : List (Bool × Call 2 Nat Nat × Answer Nat Nat)) (w' : World Nat Nat),
      run World.executeAs sampleWorld cs = some w' ∧ Shows w' sampleEnd.mem ∧
      ∀ t, Locks.ofThread t cs = Locks.answersOf t (events sampleRun) :=
  threads_refine_world sampleWorld_shows sampleRun_end sampleEnd_quiescent

end Threads

end LomiriApi
