import LomiriApi.Basic

/-!
# `ResourcePtr`: one object (ResourcePtr.h)

A `ResourcePtr<R, D>` holds a resource, a deleter and the flag `initialized_`.
This module embeds the member functions that touch one object only, statement by
statement.

- A member function that calls the deleter does so as its last action, after it
  has brought the object into its final state. It is therefore modelled as the
  new object together with the call that is still to be made
  (`Option (DeleterCall R D)`); whether that call returns or throws, the object
  stays as it is.
- `R()` is not a fixed value: a default-initialised `int` is indeterminate. The
  constructors that leave `resource_` default-initialised take the value that
  happens to be there as an argument.

The two-object operations (move, swap) are in `ResourcePtr/World.lean`, because
their operands may be the same object.
-/

namespace LomiriApi

/-- The data members of `ResourcePtr<R, D>`. An object that holds nothing still has a value
in `resource_`, which the comparison operators read. -/
structure ResourcePtr (R D : Type) where
  resource_ : R
  delete_ : D
  initialized_ : Bool
deriving DecidableEq, Repr

/-- A call `delete_(resource)`. The deleter is recorded too, as it can be moved to another
object later. -/
structure DeleterCall (R D : Type) where
  deleter : D
  resource : R
deriving DecidableEq, Repr

/-- `std::logic_error`, with its message. -/
structure LogicError where
  what : Text
deriving DecidableEq, Repr

namespace ResourcePtr

variable {R D : Type}

/-- `ResourcePtr()`: `stored` and `d` are what default-initialisation leaves in
`resource_` and `delete_`. -/
def ofDefault (stored : R) (d : D) : ResourcePtr R D := ⟨stored, d, false⟩

/-- `explicit ResourcePtr(D d)`. -/
def ofDeleter (stored : R) (d : D) : ResourcePtr R D := ⟨stored, d, false⟩

/-- `ResourcePtr(R r, D d)`. -/
def ofResource (r : R) (d : D) : ResourcePtr R D := ⟨r, d, true⟩

/-- `has_resource()`, and the conversion to `bool`. -/
def hasResource (p : ResourcePtr R D) : Bool := p.initialized_

/-- `get()`. -/
def get (p : ResourcePtr R D) : Except LogicError R :=
  if !p.initialized_ then
    .error ⟨"get() called on ResourcePtr without resource"⟩
  else
    .ok p.resource_

/-- `get_deleter()`. -/
def getDeleter (p : ResourcePtr R D) : D := p.delete_

/-- `release()`: the resource, and the object it leaves behind, which keeps the deleter and
a copy of the resource. -/
def release (p : ResourcePtr R D) : Except LogicError (R × ResourcePtr R D) :=
  if !p.initialized_ then
    .error ⟨"release() called on ResourcePtr without resource"⟩
  else
    .ok (p.resource_, { p with initialized_ := false })

/-- `dealloc()`. The flag is cleared before the deleter is called, so a deleter that throws
is not called again for the same resource. -/
def dealloc (p : ResourcePtr R D) : ResourcePtr R D × Option (DeleterCall R D) :=
  if !p.initialized_ then
    (p, none)
  else
    -- If the deleter throws, we will not try it again for the same resource.
    ({ p with initialized_ := false }, some ⟨p.delete_, p.resource_⟩)

/-- `reset(R r)`. The new resource is stored before the deleter is called for the old one,
so it is held even if that call throws. -/
def reset (p : ResourcePtr R D) (r : R) : ResourcePtr R D × Option (DeleterCall R D) :=
  let hasOld := p.initialized_
  let oldResource := p.resource_
  let p := { p with resource_ := r, initialized_ := true }
  if hasOld then (p, some ⟨p.delete_, oldResource⟩) else (p, none)

/-- What an outside observer sees of the object: the held resource, if any. The stale value
of `resource_` is not part of it. -/
def held (p : ResourcePtr R D) : Option R := if p.initialized_ then some p.resource_ else none

/-! ## What the members observe -/

theorem get_eq_ok_iff {p : ResourcePtr R D} {r : R} : p.get = .ok r ↔ p.held = some r := by
  unfold get held
  cases p.initialized_ <;> simp

/-- `get()` throws exactly when nothing is held. -/
theorem get_throws_iff (p : ResourcePtr R D) :
    (∃ e, p.get = .error e) ↔ p.hasResource = false := by
  unfold get hasResource
  cases p.initialized_ <;> simp

/-- `release()` throws exactly when nothing is held. -/
theorem release_throws_iff (p : ResourcePtr R D) :
    (∃ e, p.release = .error e) ↔ p.hasResource = false := by
  unfold release hasResource
  cases p.initialized_ <;> simp

/-- After `reset(r)`, thrown out of or not, `get()` returns `r`. -/
theorem get_reset (p : ResourcePtr R D) (r : R) : (p.reset r).1.get = .ok r := by
  unfold reset
  cases p.initialized_ <;> rfl

@[simp] theorem dealloc_delete (p : ResourcePtr R D) : p.dealloc.1.delete_ = p.delete_ := by
  unfold dealloc
  cases p.initialized_ <;> rfl

end ResourcePtr

end LomiriApi
