import LomiriApi.ResourcePtr.World

/-!
# `ResourcePtr`: transfers whose operations on `R` and `D` throw

The operations on two objects once more, statement by statement, with an exit at each
call of a user-supplied operation. An operation that throws leaves its operands as they
were.

- `UserOp`: the user-supplied operations that the transfers use.
- `World.moveConstructThrowing`, `moveAssignThrowing`, `swapThrowing`: the transfers;
  `throws` says which operations throw when they are called.
- `World.transfer_eq_apply`: where nothing but a deleter throws, these are the transfers
  of `World.apply`.
-/

namespace LomiriApi

/-- A user-supplied operation. All operations of one kind throw or do not, in one transfer;
each exit of the code is reached by some choice. -/
inductive UserOp where
  /-- move or copy of `R`, as a constructor or an assignment -/
  | moveResource
  /-- copy of `D`, as a constructor or an assignment -/
  | copyDeleter
  /-- the `swap` of `R` that is found by ADL -/
  | swapResource
  | swapDeleter
  /-- the copy of `R` that becomes the argument of a deleter which takes it by value -/
  | copyArgument
  | callDeleter
deriving DecidableEq, Repr

/-- A transfer comes back, or with the exception of a user-supplied operation. No transfer
catches any. -/
inductive TransferOutcome where
  | returned
  | threw (op : UserOp)
deriving DecidableEq, Repr

/-- An operation on two objects; `moved` is what the move leaves in the resource. -/
inductive Transfer (R : Type) where
  | moveConstruct (r : Nat) (moved : R)
  | moveAssign (this r : Nat) (moved : R)
  | swap (this other : Nat)
  | freeSwap (lhs rhs : Nat)
deriving DecidableEq, Repr

namespace World

variable {R D : Type}

/-- `ResourcePtr(ResourcePtr&& r)`. The members are constructed in their order, so a
deleter that throws while it is copied comes too late for the resource. -/
def moveConstructThrowing (w : World R D) (r : Nat) (moved : R) (throws : UserOp → Bool) :
    Option (World R D × TransferOutcome) := do
  let src ← w.get r
  if throws .moveResource then
    return (w, .threw .moveResource)
  else
    let w := w.assign r fun q => { q with resource_ := moved }
    if throws .copyDeleter then
      -- what was there of the new object is destroyed; `r` has lost its resource
      return (w, .threw .copyDeleter)
    else
      let w := w.assign r fun q => { q with initialized_ := false }
      return (w.construct ⟨src.resource_, src.delete_, src.initialized_⟩, .returned)

/-- `operator=(ResourcePtr&& r)` on the object at address `this`. `initialized_` is off
before `delete_(resource_)` is evaluated, and of that call the argument comes first: a
deleter that is never entered leaves a resource behind that nobody holds. -/
def moveAssignThrowing (w : World R D) (this r : Nat) (moved : R) (throws : UserOp → Bool) :
    Option (World R D × TransferOutcome) := do
  let lhs ← w.get this
  let _ ← w.get r
  let (lhs, pending) := lhs.dealloc
  let w := w.put this lhs
  if pending.isSome && throws .copyArgument then
    return (w, .threw .copyArgument)
  else
    let w := w.call pending
    if pending.isSome && throws .callDeleter then
      return (w, .threw .callDeleter)
    else if throws .moveResource then
      return (w, .threw .moveResource)
    else
      let src ← w.get r
      let w := w.assign this fun p => { p with resource_ := src.resource_ }
      let w := w.assign r fun q => { q with resource_ := moved }
      let src ← w.get r
      let w := w.assign this fun p => { p with initialized_ := src.initialized_ }
      let w := w.assign r fun q => { q with initialized_ := false }
      if throws .copyDeleter then
        -- the resource has been transferred, its deleter has not
        return (w, .threw .copyDeleter)
      else
        let src ← w.get r
        let w := w.assign this fun p => { p with delete_ := src.delete_ }
        return (w, .returned)

/-- `swap(ResourcePtr& other)` on the object at address `this`. The resources are swapped
first, then the deleters, and the flags at last, which cannot throw. -/
def swapThrowing (w : World R D) (this other : Nat) (throws : UserOp → Bool) :
    Option (World R D × TransferOutcome) := do
  let p ← w.get this
  let q ← w.get other
  if this = other then
    return (w, .returned)
  else if throws .swapResource then
    return (w, .threw .swapResource)
  else
    let w := (w.assign this fun p => { p with resource_ := q.resource_ }).assign other
      fun q => { q with resource_ := p.resource_ }
    if throws .swapDeleter then
      -- the resources have been exchanged, their deleters have not
      return (w, .threw .swapDeleter)
    else
      let w := (w.assign this fun p => { p with delete_ := q.delete_ }).assign other
        fun q => { q with delete_ := p.delete_ }
      let w := (w.assign this fun p => { p with initialized_ := q.initialized_ }).assign other
        fun q => { q with initialized_ := p.initialized_ }
      return (w, .returned)

/-- One transfer on a world. -/
def transfer (w : World R D) (throws : UserOp → Bool) :
    Transfer R → Option (World R D × TransferOutcome)
  | .moveConstruct r moved => w.moveConstructThrowing r moved throws
  | .moveAssign this r moved => w.moveAssignThrowing this r moved throws
  | .swap this other => w.swapThrowing this other throws
  | .freeSwap lhs rhs => w.swapThrowing lhs rhs throws

/-! ## The transfers in closed form -/

theorem moveConstructThrowing_eq {w : World R D} {r : Nat} {q : ResourcePtr R D}
    (h : w.get r = some q) (moved : R) (throws : UserOp → Bool) :
    w.moveConstructThrowing r moved throws = some
      (if throws .moveResource then (w, .threw .moveResource)
      else if throws .copyDeleter then
        (w.put r ⟨moved, q.delete_, q.initialized_⟩, .threw .copyDeleter)
      else ((w.put r ⟨moved, q.delete_, false⟩).construct q, .returned)) := by
  simp only [moveConstructThrowing, h, Option.bind_eq_bind, Option.bind_some, assign_eq_put h,
    assign_eq_put (get_put_self h _), put_put]
  split
  · rfl
  · split <;> rfl

/-- Between two objects. -/
theorem moveAssignThrowing_ne {w : World R D} {i j : Nat} {p q : ResourcePtr R D}
    (hi : w.get i = some p) (hj : w.get j = some q) (hij : i ≠ j) (moved : R)
    (throws : UserOp → Bool) :
    w.moveAssignThrowing i j moved throws = some
      (if p.dealloc.2.isSome && throws .copyArgument then
        (w.put i p.dealloc.1, .threw .copyArgument)
      else if p.dealloc.2.isSome && throws .callDeleter then
        ((w.put i p.dealloc.1).call p.dealloc.2, .threw .callDeleter)
      else if throws .moveResource then
        ((w.put i p.dealloc.1).call p.dealloc.2, .threw .moveResource)
      else if throws .copyDeleter then
        (((w.put i ⟨q.resource_, p.delete_, q.initialized_⟩).put j
          ⟨moved, q.delete_, false⟩).call p.dealloc.2, .threw .copyDeleter)
      else
        (((w.put i q).put j ⟨moved, q.delete_, false⟩).call p.dealloc.2, .returned)) := by
  have hgeti : ∀ (a : ResourcePtr R D) c, ((w.put i a).call c).get i = some a :=
    fun a c => get_put_self hi a
  have hgetj : ∀ (a : ResourcePtr R D) c, ((w.put i a).call c).get j = some q :=
    fun a c => (get_put_ne w hij a).trans hj
  have hgeti' : ∀ (a b : ResourcePtr R D) c, (((w.put i a).put j b).call c).get i = some a :=
    fun a b c => (get_put_ne _ hij.symm b).trans (get_put_self hi a)
  have hgetj' : ∀ (a b : ResourcePtr R D) c, (((w.put i a).put j b).call c).get j = some b :=
    fun a b c => get_put_self (hgetj a none) b
  simp only [moveAssignThrowing, hi, hj, Option.bind_eq_bind, Option.bind_some, hgetj]
  split
  · rfl
  · split
    · rfl
    · split
      · rfl
      · simp only [assign_eq_put (hgeti _ _), put_call, put_put, assign_eq_put (hgetj _ _),
          hgetj', assign_eq_put (hgeti' _ _ _), put_comm _ hij.symm, assign_eq_put (hgetj' _ _ _),
          Option.bind_some, ResourcePtr.dealloc_delete]
        split <;> rfl

/-- An object assigned to itself. It deallocates its own resource, and then takes over that
it holds none. -/
theorem moveAssignThrowing_self {w : World R D} {i : Nat} {p : ResourcePtr R D}
    (h : w.get i = some p) (moved : R) {throws : UserOp → Bool}
    (hargument : (p.dealloc.2.isSome && throws .copyArgument) = false) :
    ∃ q o, q.initialized_ = false ∧
      w.moveAssignThrowing i i moved throws = some ((w.put i q).call p.dealloc.2, o) := by
  have hget : ∀ (q : ResourcePtr R D) c, ((w.put i q).call c).get i = some q :=
    fun q c => get_put_self h q
  have hassign : ∀ (q : ResourcePtr R D) c f, ((w.put i q).call c).assign i f
      = (w.put i (f q)).call c := by
    intro q c f
    rw [assign_eq_put (hget q c), put_call, put_put]
  have hempty : p.dealloc.1.initialized_ = false := by
    obtain ⟨r, d, b⟩ := p
    cases b <;> rfl
  simp only [moveAssignThrowing, h, Option.bind_eq_bind, Option.bind_some, hget, hassign,
    hargument, Bool.false_eq_true, if_false]
  split
  · exact ⟨p.dealloc.1, _, hempty, rfl⟩
  · split
    · exact ⟨p.dealloc.1, _, hempty, rfl⟩
    · split
      · exact ⟨⟨moved, p.dealloc.1.delete_, false⟩, _, rfl, rfl⟩
      · exact ⟨⟨moved, p.dealloc.1.delete_, false⟩, _, rfl, rfl⟩

/-- Between two objects. -/
theorem swapThrowing_ne {w : World R D} {i j : Nat} {p q : ResourcePtr R D}
    (hi : w.get i = some p) (hj : w.get j = some q) (hij : i ≠ j) (throws : UserOp → Bool) :
    w.swapThrowing i j throws = some
      (if throws .swapResource then (w, .threw .swapResource)
      else if throws .swapDeleter then
        ((w.put i ⟨q.resource_, p.delete_, p.initialized_⟩).put j
          ⟨p.resource_, q.delete_, q.initialized_⟩, .threw .swapDeleter)
      else ((w.put i q).put j p, .returned)) := by
  have hgeti : ∀ a b : ResourcePtr R D, ((w.put i a).put j b).get i = some a :=
    fun a b => (get_put_ne _ hij.symm b).trans (get_put_self hi a)
  have hgetj : ∀ a b : ResourcePtr R D, ((w.put i a).put j b).get j = some b :=
    fun a b => get_put_self ((get_put_ne w hij a).trans hj) b
  have hagain : ∀ (a b : ResourcePtr R D) f g,
      (((w.put i a).put j b).assign i f).assign j g = (w.put i (f a)).put j (g b) := by
    intro a b f g
    rw [assign_assign (hgeti a b) (hgetj a b) hij, put_put_twice w hij]
  simp only [swapThrowing, hi, hj, Option.bind_eq_bind, Option.bind_some, if_neg hij,
    assign_assign hi hj hij, hagain]
  split
  · rfl
  · split <;> rfl

theorem swapThrowing_self {w : World R D} {i : Nat} {p : ResourcePtr R D}
    (h : w.get i = some p) (throws : UserOp → Bool) :
    w.swapThrowing i i throws = some (w, .returned) := by
  simp only [swapThrowing, h, Option.bind_eq_bind, Option.bind_some, if_pos]
  rfl

/-! ## Where only a deleter throws -/

end World

/-- The operation of a client that the transfer is. -/
def Transfer.toOp {R D : Type} : Transfer R → Op R D
  | .moveConstruct r moved => .moveConstruct r moved
  | .moveAssign this r moved => .moveAssign this r moved
  | .swap this other => .swap this other
  | .freeSwap lhs rhs => .freeSwap lhs rhs

namespace World

variable {R D : Type}

/-- Only deleters throw, and they do if `throws` says so. This is the case that the model
without exits covers. -/
def onlyDeleters (throws : Bool) (op : UserOp) : Bool := op == .callDeleter && throws

theorem swapThrowing_eq_swap (w : World R D) (i j : Nat) (throws : Bool) :
    (w.swapThrowing i j (onlyDeleters throws)).map Prod.fst = (w.swap i j).map Prod.fst := by
  cases hp : w.get i with
  | none => simp [swapThrowing, swap, hp]
  | some p =>
    cases hq : w.get j with
    | none => simp [swapThrowing, swap, hp, hq]
    | some q =>
      by_cases hij : i = j
      · subst hij
        rw [swapThrowing_self hp, swap_self hp]
        rfl
      · rw [swapThrowing_ne hp hq hij, swap_ne hp hq hij]
        rfl

theorem transfer_eq_apply (w : World R D) (throws : Bool) (t : Transfer R) :
    (w.transfer (onlyDeleters throws) t).map Prod.fst = (w.apply throws t.toOp).map Prod.fst := by
  cases t with
  | moveConstruct r moved =>
    show (w.moveConstructThrowing r moved _).map _ = (w.moveConstruct r moved).map _
    cases hq : w.get r with
    | none => simp [moveConstructThrowing, moveConstruct, hq]
    | some q =>
      rw [moveConstructThrowing_eq hq, moveConstruct_eq hq]
      rfl
  | moveAssign i j moved =>
    show (w.moveAssignThrowing i j moved _).map _ = (w.moveAssign i j moved throws).map _
    have hargument : onlyDeleters throws .copyArgument = false := rfl
    have hdeleter : onlyDeleters throws .callDeleter = throws := rfl
    have hresource : onlyDeleters throws .moveResource = false := rfl
    have hcopy : onlyDeleters throws .copyDeleter = false := rfl
    cases hp : w.get i with
    | none => simp [moveAssignThrowing, moveAssign, hp]
    | some p =>
      cases hq : w.get j with
      | none => simp [moveAssignThrowing, moveAssign, hp, hq]
      | some q =>
        simp only [moveAssignThrowing, moveAssign, hargument, hdeleter, hresource, hcopy, hp, hq,
          Bool.and_false, Bool.false_eq_true, if_false, Option.bind_eq_bind, Option.bind_some]
        split
        · rfl
        · simp only [Option.map_bind, Function.comp_def, Option.pure_def, Option.map_some]
  | swap i j => exact swapThrowing_eq_swap w i j throws
  | freeSwap i j => exact swapThrowing_eq_swap w i j throws

end World

end LomiriApi
