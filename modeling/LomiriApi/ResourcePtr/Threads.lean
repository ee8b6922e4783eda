import LomiriApi.Lib.Balance
import LomiriApi.Lib.Completion
import LomiriApi.ResourcePtr.Conservation
import LomiriApi.ResourcePtr.Order

/-!
# `ResourcePtr` among threads

"ResourcePtr is thread-safe": each object has a mutex `m_`, which every member function
holds while it works on the object. This module embeds the member functions as what
they are for other threads, sequences of statements, and proves what the mutexes are
for.

- `Shared`: an object that threads share, with the deleter calls that its member
  functions have made. The objects are at the addresses `Fin n`.
- `Call`, `Call.body`, `code`: the member functions, statement by statement, with the
  mutexes that each of them takes. `swap` and the comparisons test `this == &other`
  before they take two mutexes.
- `Call.spec`: the member function in one piece, in the words of `ResourcePtr/Basic.lean`;
  `body_run` says that the statements, executed without interruption, come to that.

The source of a move is a temporary, which no other thread can see; a call carries its
contents and its answer says what is left of it. The reference that `get_deleter()`
returns leaves the mutex behind, so it is not a call here.
-/

namespace LomiriApi

open Lib

/-- A shared object, and the deleter calls that its member functions have made. The calls
are part of the cell, since they are made with its mutex held. -/
structure Shared (R D : Type) where
  ptr : ResourcePtr R D
  calls : List (DeleterCall R D)
deriving DecidableEq, Repr

namespace Threads

/-- The comparison operators. -/
inductive Comparison where
  | eq | ne | lt | le | gt | ge
deriving DecidableEq, Repr

/-- A call of a member function. `throws` is what the deleter does if it is called; `src`
is the temporary that is moved from, and `moved` what the move leaves in it. No other
thread can see the temporary, so it is not among the cells. -/
inductive Call (n : Nat) (R D : Type) where
  | reset (this : Fin n) (r : R) (throws : Bool)
  | release (this : Fin n)
  | dealloc (this : Fin n) (throws : Bool)
  | get (this : Fin n)
  | hasResource (this : Fin n)
  | moveAssign (this : Fin n) (src : ResourcePtr R D) (moved : R) (throws : Bool)
  | swap (this other : Fin n)
  | compare (op : Comparison) (this rhs : Fin n)
deriving DecidableEq, Repr

/-- What a call comes back with. -/
inductive Answer (R D : Type) where
  | outcome (o : Outcome R)
  /-- of a move assignment: the outcome, and the temporary afterwards -/
  | assigned (o : Outcome R) (src : ResourcePtr R D)
  /-- of a comparison -/
  | compared (b : Bool)
deriving DecidableEq, Repr

/-! ## The member functions, statement by statement -/

section Bodies

variable {n : Nat} {R D : Type}

/-- The statements of a member function. -/
abbrev Body (n : Nat) (R D ρ : Type) := Prog (Fin n) (Shared R D) ρ

/-- Read a data member. -/
def member {ρ : Type} (i : Fin n) (f : ResourcePtr R D → ρ) : Body n R D ρ := do
  return f (← Prog.load i).ptr

/-- Assign to a data member. -/
def assign (i : Fin n) (f : ResourcePtr R D → ResourcePtr R D) : Body n R D Unit :=
  Prog.modify i fun o => { o with ptr := f o.ptr }

def setResource (i : Fin n) (r : R) : Body n R D Unit := assign i ({ · with resource_ := r })
def setDelete (i : Fin n) (d : D) : Body n R D Unit := assign i ({ · with delete_ := d })
def setInitialized (i : Fin n) (b : Bool) : Body n R D Unit :=
  assign i ({ · with initialized_ := b })

/-- `delete_(r)`, with the mutex held. That is also why a deleter must not use the
object. -/
def callDelete (i : Fin n) (r : R) : Body n R D Unit := do
  let d ← member i (·.delete_)
  Prog.modify i fun o => { o with calls := o.calls ++ [⟨d, r⟩] }

/-- How a call ends after its deleter call. -/
def thrown (throws : Bool) : Outcome R := if throws then .deleterThrew else .returned

/-- `reset(R r)`. -/
def reset (this : Fin n) (r : R) (throws : Bool) : Body n R D (Answer R D) := do
  let hasOld ← member this (·.initialized_)
  let oldResource ← member this (·.resource_)
  setResource this r
  -- If the deleter throws, we still satisfy the postcondition: resource_ == r.
  setInitialized this true
  if hasOld then do
    callDelete this oldResource
    return .outcome (thrown throws)
  else
    return .outcome .returned

/-- `release()` throws. -/
def releaseThrows : Answer R D :=
  .outcome (.logicError ⟨"release() called on ResourcePtr without resource"⟩)

/-- `get()` throws. -/
def getThrows : Answer R D :=
  .outcome (.logicError ⟨"get() called on ResourcePtr without resource"⟩)

/-- `release()`. -/
def release (this : Fin n) : Body n R D (Answer R D) := do
  if !(← member this (·.initialized_)) then
    return releaseThrows
  else do
    setInitialized this false
    return .outcome (.gave (← member this (·.resource_)))

/-- `dealloc()`. -/
def dealloc (this : Fin n) (throws : Bool) : Body n R D (Answer R D) := do
  if !(← member this (·.initialized_)) then
    return .outcome .returned
  else do
    -- If the deleter throws, we will not try it again for the same resource.
    setInitialized this false
    callDelete this (← member this (·.resource_))
    return .outcome (thrown throws)

/-- `get()`. -/
def get (this : Fin n) : Body n R D (Answer R D) := do
  if !(← member this (·.initialized_)) then
    return getThrows
  else
    return .outcome (.gave (← member this (·.resource_)))

/-- `has_resource()`. -/
def hasResource (this : Fin n) : Body n R D (Answer R D) := do
  return .outcome (.has (← member this (·.initialized_)))

/-- The rest of `operator=(ResourcePtr&& r)`, when the old resource is gone. -/
def takeOver (this : Fin n) (src : ResourcePtr R D) (moved : R) : Body n R D (Answer R D) := do
  -- r is a temporary, so we don't need to lock it.
  setResource this src.resource_
  setInitialized this src.initialized_
  setDelete this src.delete_
  return .assigned .returned { src with resource_ := moved, initialized_ := false }

/-- `operator=(ResourcePtr&& r)`. -/
def moveAssign (this : Fin n) (src : ResourcePtr R D) (moved : R) (throws : Bool) :
    Body n R D (Answer R D) := do
  -- If we hold a resource, deallocate it first.
  if (← member this (·.initialized_)) then do
    setInitialized this false
    callDelete this (← member this (·.resource_))
    if throws then return .assigned .deleterThrew src else takeOver this src moved
  else
    takeOver this src moved

/-- `swap(ResourcePtr& other)`, with both mutexes held. They are taken by `std::lock`, in
whichever order they come free. -/
def swapMembers (this other : Fin n) : Body n R D (Answer R D) := do
  let r ← member this (·.resource_)
  setResource this (← member other (·.resource_))
  setResource other r
  let d ← member this (·.delete_)
  setDelete this (← member other (·.delete_))
  setDelete other d
  let b ← member this (·.initialized_)
  setInitialized this (← member other (·.initialized_))
  setInitialized other b
  return .outcome .returned

section Compare

variable [DecidableEq R] [LT R] [DecidableLT R]

/-- `operator==`, with both mutexes held. -/
def equal (this rhs : Fin n) : Body n R D Bool := do
  if !(← member this (·.initialized_)) then
    return !(← member rhs (·.initialized_))
  else if !(← member rhs (·.initialized_)) then
    return false
  else
    return (← member this (·.resource_)) == (← member rhs (·.resource_))

/-- `operator<`, with both mutexes held. -/
def less (this rhs : Fin n) : Body n R D Bool := do
  if !(← member this (·.initialized_)) then
    member rhs (·.initialized_)
  else if !(← member rhs (·.initialized_)) then
    return false
  else
    return decide ((← member this (·.resource_)) < (← member rhs (·.resource_)))

/-- `operator<=`, with both mutexes held. The resources are compared whether they are held
or not. -/
def lessEqual (this rhs : Fin n) : Body n R D Bool := do
  -- two comparisons under one lock
  if decide ((← member this (·.resource_)) < (← member rhs (·.resource_))) then
    return true
  else
    return (← member this (·.resource_)) == (← member rhs (·.resource_))

/-- An operator between two different objects. `!=`, `>` and `>=` negate another one. -/
def compare (op : Comparison) (this rhs : Fin n) : Body n R D (Answer R D) := do
  match op with
  | .eq => return .compared (← equal this rhs)
  | .ne => return .compared !(← equal this rhs)
  | .lt => return .compared (← less this rhs)
  | .ge => return .compared !(← less this rhs)
  | .le => return .compared (← lessEqual this rhs)
  | .gt => return .compared !(← lessEqual this rhs)

/-- An operator applied to an object and itself. The code answers that without looking, or
it would wait for its own mutex. -/
def compareSelf (op : Comparison) : Bool :=
  match op with
  | .eq => true
  | .ne => !true
  | .lt => false
  | .ge => !false
  | .le => true
  | .gt => !true

end Compare

/-! ### What the comparisons come to -/

theorem val_ne {this rhs : Fin n} (h : this ≠ rhs) : this.val ≠ rhs.val :=
  fun heq => h (Fin.ext heq)

theorem run_equal [DecidableEq R] {this rhs : Fin n} (h : this ≠ rhs) (m : Fin n → Shared R D) :
    (equal this rhs).run m
      = (m, ResourcePtr.operatorEq this rhs (m this).ptr (m rhs).ptr) := by
  rcases hp : (m this).ptr with ⟨r, d, b⟩
  rcases hq : (m rhs).ptr with ⟨r', d', b'⟩
  cases b <;> cases b' <;> simp [equal, member, ResourcePtr.operatorEq, hp, hq, val_ne h]

theorem run_less [LT R] [DecidableLT R] {this rhs : Fin n} (h : this ≠ rhs)
    (m : Fin n → Shared R D) :
    (less this rhs).run m
      = (m, ResourcePtr.operatorLt this rhs (m this).ptr (m rhs).ptr) := by
  rcases hp : (m this).ptr with ⟨r, d, b⟩
  rcases hq : (m rhs).ptr with ⟨r', d', b'⟩
  cases b <;> cases b' <;> simp [less, member, ResourcePtr.operatorLt, hp, hq, val_ne h]

theorem run_lessEqual [DecidableEq R] [LT R] [DecidableLT R] {this rhs : Fin n}
    (h : this ≠ rhs) (m : Fin n → Shared R D) :
    (lessEqual this rhs).run m
      = (m, ResourcePtr.operatorLe this rhs (m this).ptr (m rhs).ptr) := by
  by_cases hlt : (m this).ptr.resource_ < (m rhs).ptr.resource_ <;>
    simp [lessEqual, member, ResourcePtr.operatorLe, hlt, val_ne h]

/-! ## The critical sections -/

/-- A member function that takes its own mutex only. -/
def guarded (this : Fin n) (body : Body n R D (Answer R D)) (h : body.Within [this]) :
    Section (Fin n) (Shared R D) (Answer R D) := ⟨[this], List.nodup_singleton this, body, h⟩

/-- A member function that takes its own and another mutex, unless they are the same; then
it takes none, and returns `same`. -/
def guardedBoth (this other : Fin n) (same : Answer R D) (body : Body n R D (Answer R D))
    (h : body.Within [this, other]) : Section (Fin n) (Shared R D) (Answer R D) :=
  -- This is necessary to avoid deadlock: no mutex can be taken twice.
  if hne : this = other then
    ⟨[], List.nodup_nil, pure same, Prog.within_pure [] same⟩
  else
    ⟨[this, other], by simpa using hne, body, h⟩

theorem within_reset (this : Fin n) (r : R) (throws : Bool) :
    (reset this r throws : Body n R D (Answer R D)).Within [this] := by
  simp [reset, member, assign, setResource, setInitialized, callDelete]

theorem within_release (this : Fin n) :
    (release this : Body n R D (Answer R D)).Within [this] := by
  simp [release, member, assign, setInitialized]

theorem within_dealloc (this : Fin n) (throws : Bool) :
    (dealloc this throws : Body n R D (Answer R D)).Within [this] := by
  simp [dealloc, member, assign, setInitialized, callDelete]

theorem within_get (this : Fin n) : (get this : Body n R D (Answer R D)).Within [this] := by
  simp [get, member]

theorem within_hasResource (this : Fin n) :
    (hasResource this : Body n R D (Answer R D)).Within [this] := by
  simp [hasResource, member]

theorem within_takeOver (this : Fin n) (src : ResourcePtr R D) (moved : R) :
    (takeOver this src moved : Body n R D (Answer R D)).Within [this] := by
  simp [takeOver, assign, setResource, setDelete, setInitialized]

theorem within_moveAssign (this : Fin n) (src : ResourcePtr R D) (moved : R) (throws : Bool) :
    (moveAssign this src moved throws : Body n R D (Answer R D)).Within [this] := by
  simp [moveAssign, within_takeOver, member, assign, setInitialized, callDelete]

theorem within_swapMembers (this other : Fin n) :
    (swapMembers this other : Body n R D (Answer R D)).Within [this, other] := by
  simp [swapMembers, member, assign, setResource, setDelete, setInitialized]

variable [DecidableEq R] [LT R] [DecidableLT R]

theorem within_compare (op : Comparison) (this rhs : Fin n) :
    (compare op this rhs : Body n R D (Answer R D)).Within [this, rhs] := by
  cases op <;> simp [compare, equal, less, lessEqual, member]

/-- The critical section of each member function. -/
def code : Call n R D → Section (Fin n) (Shared R D) (Answer R D)
  | .reset this r throws => guarded this (reset this r throws) (within_reset this r throws)
  | .release this => guarded this (release this) (within_release this)
  | .dealloc this throws => guarded this (dealloc this throws) (within_dealloc this throws)
  | .get this => guarded this (get this) (within_get this)
  | .hasResource this => guarded this (hasResource this) (within_hasResource this)
  | .moveAssign this src moved throws =>
    guarded this (moveAssign this src moved throws) (within_moveAssign this src moved throws)
  | .swap this other =>
    guardedBoth this other (.outcome .returned) (swapMembers this other)
      (within_swapMembers this other)
  | .compare op this rhs =>
    guardedBoth this rhs (.compared (compareSelf op)) (compare op this rhs)
      (within_compare op this rhs)

/-! ## The member functions in one piece -/

/-- Bring the object at `this` into the state `p`, and make a pending deleter call. -/
def update (m : Fin n → Shared R D) (this : Fin n) (p : ResourcePtr R D)
    (pending : Option (DeleterCall R D)) : Fin n → Shared R D :=
  Function.update m this ⟨p, (m this).calls ++ pending.toList⟩

/-- The operators of `ResourcePtr/Order.lean`. -/
def Comparison.operator (op : Comparison) (this rhs : Nat) (p q : ResourcePtr R D) : Bool :=
  match op with
  | .eq => ResourcePtr.operatorEq this rhs p q
  | .ne => ResourcePtr.operatorNe this rhs p q
  | .lt => ResourcePtr.operatorLt this rhs p q
  | .ge => ResourcePtr.operatorGe this rhs p q
  | .le => ResourcePtr.operatorLe this rhs p q
  | .gt => ResourcePtr.operatorGt this rhs p q

/-- What a call does to the objects, and its answer. -/
def spec : Call n R D → (Fin n → Shared R D) → (Fin n → Shared R D) × Answer R D
  | .reset this r throws, m =>
    let (p, pending) := (m this).ptr.reset r
    (update m this p pending, .outcome (World.callOutcome pending throws))
  | .release this, m =>
    match (m this).ptr.release with
    | .ok (r, p) => (update m this p none, .outcome (.gave r))
    | .error e => (m, .outcome (.logicError e))
  | .dealloc this throws, m =>
    let (p, pending) := (m this).ptr.dealloc
    (update m this p pending, .outcome (World.callOutcome pending throws))
  | .get this, m =>
    match (m this).ptr.get with
    | .ok r => (m, .outcome (.gave r))
    | .error e => (m, .outcome (.logicError e))
  | .hasResource this, m => (m, .outcome (.has (m this).ptr.hasResource))
  | .moveAssign this src moved throws, m =>
    let (p, pending) := (m this).ptr.dealloc
    if pending.isSome && throws then
      (update m this p pending, .assigned .deleterThrew src)
    else
      (update m this src pending, .assigned .returned ⟨moved, src.delete_, false⟩)
  | .swap this other, m =>
    (update (update m this (m other).ptr none) other (m this).ptr none, .outcome .returned)
  | .compare op this rhs, m =>
    (m, .compared (op.operator this rhs (m this).ptr (m rhs).ptr))

theorem run_reset (this : Fin n) (r : R) (throws : Bool) (m : Fin n → Shared R D) :
    (reset this r throws).run m = spec (.reset this r throws) m := by
  rcases hm : m this with ⟨⟨res, d, b⟩, calls⟩
  cases b <;>
    simp [reset, member, assign, setResource, setInitialized, callDelete, spec, hm,
      ResourcePtr.reset, update, World.callOutcome, thrown]

theorem run_release (this : Fin n) (m : Fin n → Shared R D) :
    (release this).run m = spec (.release this) m := by
  rcases hm : m this with ⟨⟨res, d, b⟩, calls⟩
  cases b <;>
    simp [release, member, assign, setInitialized, spec, hm, ResourcePtr.release, update,
      releaseThrows]

theorem run_dealloc (this : Fin n) (throws : Bool) (m : Fin n → Shared R D) :
    (dealloc this throws).run m = spec (.dealloc this throws) m := by
  rcases hm : m this with ⟨⟨res, d, b⟩, calls⟩
  cases b <;>
    simp [dealloc, member, assign, setInitialized, callDelete, spec, hm, ResourcePtr.dealloc,
      update, World.callOutcome, thrown]

theorem run_get (this : Fin n) (m : Fin n → Shared R D) :
    (get this).run m = spec (.get this) m := by
  rcases hm : m this with ⟨⟨res, d, b⟩, calls⟩
  cases b <;> simp [get, member, spec, hm, ResourcePtr.get, getThrows]

theorem run_moveAssign (this : Fin n) (src : ResourcePtr R D) (moved : R) (throws : Bool)
    (m : Fin n → Shared R D) :
    (moveAssign this src moved throws).run m = spec (.moveAssign this src moved throws) m := by
  rcases hm : m this with ⟨⟨res, d, b⟩, calls⟩
  cases b <;> cases throws <;>
    simp [moveAssign, takeOver, member, assign, setResource, setDelete, setInitialized,
      callDelete, spec, hm, ResourcePtr.dealloc, update]

theorem run_swapMembers {this other : Fin n} (h : this ≠ other) (m : Fin n → Shared R D) :
    (swapMembers this other).run m = spec (.swap this other) m := by
  simp [swapMembers, member, assign, setResource, setDelete, setInitialized, spec, update, h,
    Ne.symm h, Function.update_comm]

theorem run_compare (op : Comparison) {this rhs : Fin n} (h : this ≠ rhs)
    (m : Fin n → Shared R D) :
    (compare op this rhs).run m = spec (.compare op this rhs) m := by
  cases op <;>
    simp [compare, run_equal h, run_less h, run_lessEqual h, spec, Comparison.operator,
      ResourcePtr.operatorNe, ResourcePtr.operatorGe, ResourcePtr.operatorGt]

/-- The statements of a member function, executed without interruption, come to what the
member function does. -/
theorem body_run (c : Call n R D) (m : Fin n → Shared R D) :
    (code c).body.run m = spec c m := by
  cases c with
  | reset this r throws => exact run_reset this r throws m
  | release this => exact run_release this m
  | dealloc this throws => exact run_dealloc this throws m
  | get this => exact run_get this m
  | hasResource this => rfl
  | moveAssign this src moved throws => exact run_moveAssign this src moved throws m
  | swap this other =>
    simp only [code, guardedBoth]
    split
    case isTrue h =>
      subst h
      simp [spec, update]
    case isFalse h => exact run_swapMembers h m
  | compare op this rhs =>
    simp only [code, guardedBoth]
    split
    case isTrue h =>
      subst h
      cases op <;> simp [spec, compareSelf, Comparison.operator, ResourcePtr.operatorEq,
        ResourcePtr.operatorNe, ResourcePtr.operatorLt, ResourcePtr.operatorGe,
        ResourcePtr.operatorLe, ResourcePtr.operatorGt]
    case isFalse h => exact run_compare op h m

end Bodies

end Threads

end LomiriApi
