import LomiriApi.Lib.Run
import LomiriApi.ResourcePtr.Basic

/-!
# `ResourcePtr`: any number of objects, and the deleter calls they make

- `World`: the live `ResourcePtr` objects, each at its address (a position of
  `objs`; `none` once destroyed), and the deleter calls made so far, in order.
- `World.moveConstruct`, `moveAssign`, `swap`: the operations on two objects,
  written as the source's sequence of assignments, so that an object assigned or
  swapped with itself goes through the same statements.
- `Op`, `World.apply`: one operation of a client. Each operation makes at most
  one deleter call; the operation's label says whether that call throws. A
  moved-from resource keeps an unspecified value, which the label chooses too.
- `History`: a world together with what was handed in and handed out so far, and
  `History.step`, the step function of a run in which every resource handed to a
  constructor or to `reset()` is a new token.
-/

namespace LomiriApi

open Lib

/-- Live objects by address, and the deleter calls made so far. Calls are recorded and not
executed, so a deleter may be anything; what it does is its own business. -/
structure World (R D : Type) where
  objs : List (Option (ResourcePtr R D))
  calls : List (DeleterCall R D)
deriving DecidableEq, Repr

/-- How an operation comes back to its caller. -/
inductive Outcome (R : Type) where
  /-- normal return without a value -/
  | returned
  /-- normal return of a resource (`get`, `release`) -/
  | gave (r : R)
  /-- normal return of `has_resource()` -/
  | has (b : Bool)
  /-- `std::logic_error` -/
  | logicError (e : LogicError)
  /-- the exception of a throwing deleter -/
  | deleterThrew
deriving DecidableEq, Repr

namespace World

variable {R D : Type}

/-- No objects yet, no calls yet. -/
def empty : World R D := ⟨[], []⟩

/-- The live object at address `i`. A destroyed object has none, so that a client cannot
use it any more. -/
def get (w : World R D) (i : Nat) : Option (ResourcePtr R D) := w.objs[i]?.join

/-- Overwrite the object at address `i`. -/
def put (w : World R D) (i : Nat) (p : ResourcePtr R D) : World R D :=
  { w with objs := w.objs.set i (some p) }

/-- An assignment to a data member of the object at address `i`. Each reads the world anew,
which matters if both operands are one object. -/
def assign (w : World R D) (i : Nat) (f : ResourcePtr R D → ResourcePtr R D) : World R D :=
  match w.get i with
  | some p => w.put i (f p)
  | none => w

/-- A new object, at the next address. -/
def construct (w : World R D) (p : ResourcePtr R D) : World R D :=
  { w with objs := w.objs ++ [some p] }

/-- The object at address `i` is gone. -/
def remove (w : World R D) (i : Nat) : World R D :=
  { w with objs := w.objs.set i none }

/-- Make a pending deleter call, if there is one. It is recorded whether it throws or not,
as the resource is not tried again. -/
def call (w : World R D) (c : Option (DeleterCall R D)) : World R D :=
  { w with calls := w.calls ++ c.toList }

/-- The outcome of an operation whose last action is the deleter call `c`. -/
def callOutcome (c : Option (DeleterCall R D)) (throws : Bool) : Outcome R :=
  if c.isSome && throws then .deleterThrew else .returned

/-- `ResourcePtr(ResourcePtr&& r)`: `moved` is what the move leaves in `r.resource_`. -/
def moveConstruct (w : World R D) (r : Nat) (moved : R) : Option (World R D × Outcome R) := do
  let src ← w.get r
  let w := w.assign r fun q => { q with resource_ := moved }
  -- Stop r from deleting its resource, if it held any.
  let w := w.assign r fun q => { q with initialized_ := false }
  return (w.construct ⟨src.resource_, src.delete_, src.initialized_⟩, .returned)

/-- `operator=(ResourcePtr&& r)` on the object at address `this`. The statements are those
of the code, so that `a = std::move(a)` deallocates and then reads what it has just given
up. -/
def moveAssign (w : World R D) (this r : Nat) (moved : R) (throws : Bool) :
    Option (World R D × Outcome R) := do
  let lhs ← w.get this
  let _ ← w.get r
  -- If we hold a resource, deallocate it first.
  let (lhs, pending) := lhs.dealloc
  let w := (w.put this lhs).call pending
  if pending.isSome && throws then
    return (w, .deleterThrew)
  else
    let src ← w.get r
    let w := w.assign this fun p => { p with resource_ := src.resource_ }
    let w := w.assign r fun q => { q with resource_ := moved }
    let src ← w.get r
    let w := w.assign this fun p => { p with initialized_ := src.initialized_ }
    let w := w.assign r fun q => { q with initialized_ := false }
    let src ← w.get r
    let w := w.assign this fun p => { p with delete_ := src.delete_ }
    return (w, .returned)

/-- `swap(ResourcePtr& other)` on the object at address `this`. A swap with itself returns
at once, or it would lock its mutex twice. -/
def swap (w : World R D) (this other : Nat) : Option (World R D × Outcome R) := do
  let p ← w.get this
  let q ← w.get other
  if this = other then
    return (w, .returned)
  else
    let w := (w.assign this fun p => { p with resource_ := q.resource_ }).assign other
      fun q => { q with resource_ := p.resource_ }
    let w := (w.assign this fun p => { p with delete_ := q.delete_ }).assign other
      fun q => { q with delete_ := p.delete_ }
    let w := (w.assign this fun p => { p with initialized_ := q.initialized_ }).assign other
      fun q => { q with initialized_ := p.initialized_ }
    return (w, .returned)

/-- The free `swap(lhs, rhs)`. -/
def freeSwap (w : World R D) (lhs rhs : Nat) : Option (World R D × Outcome R) :=
  w.swap lhs rhs

end World

/-- One operation of a client. `stored` and `moved` are the unspecified values of
a default-initialised and of a moved-from resource. -/
inductive Op (R D : Type) where
  | default (stored : R) (d : D)
  | ofDeleter (stored : R) (d : D)
  | ofResource (r : R) (d : D)
  | moveConstruct (r : Nat) (moved : R)
  | moveAssign (this r : Nat) (moved : R)
  | swap (this other : Nat)
  | freeSwap (lhs rhs : Nat)
  | reset (this : Nat) (r : R)
  | release (this : Nat)
  | dealloc (this : Nat)
  | get (this : Nat)
  | hasResource (this : Nat)
  | destroy (this : Nat)
deriving DecidableEq, Repr

namespace World

variable {R D : Type}

/-- One operation on a world; `none` where it names an object that is not live.
`throws` says what a deleter call made by the operation does. -/
def apply (w : World R D) (throws : Bool) : Op R D → Option (World R D × Outcome R)
  | .default stored d => some (w.construct (.ofDefault stored d), .returned)
  | .ofDeleter stored d => some (w.construct (.ofDeleter stored d), .returned)
  | .ofResource r d => some (w.construct (.ofResource r d), .returned)
  | .moveConstruct r moved => w.moveConstruct r moved
  | .moveAssign this r moved => w.moveAssign this r moved throws
  | .swap this other => w.swap this other
  | .freeSwap lhs rhs => w.freeSwap lhs rhs
  | .reset this r => do
    let (p, pending) := (← w.get this).reset r
    return ((w.put this p).call pending, callOutcome pending throws)
  | .release this => do
    match (← w.get this).release with
    | .ok (r, p) => return (w.put this p, .gave r)
    | .error e => return (w, .logicError e)
  | .dealloc this => do
    let (p, pending) := (← w.get this).dealloc
    return ((w.put this p).call pending, callOutcome pending throws)
  | .get this => do
    match (← w.get this).get with
    | .ok r => return (w, .gave r)
    | .error e => return (w, .logicError e)
  | .hasResource this => do
    return (w, .has (← w.get this).hasResource)
  | .destroy this => do
    -- catch (...) {}: a throwing deleter does not leave the destructor
    let (_, pending) := (← w.get this).dealloc
    return ((w.remove this).call pending, .returned)

end World

/-- The resources an operation hands in, with the deleter each is installed with. -/
def Op.handsIn {R D : Type} (w : World R D) : Op R D → List (R × D)
  | .ofResource r d => [(r, d)]
  | .reset this r => (w.get this).toList.map fun p => (r, p.delete_)
  | _ => []

/-- The resource an operation hands out for good, with the deleter it had. -/
def Op.handsOut {R D : Type} (w : World R D) : Op R D → List (R × D)
  | .release this => (w.get this).toList.flatMap fun p =>
      match p.release with
      | .ok (r, _) => [(r, p.delete_)]
      | .error _ => []
  | _ => []

/-- A world, and what has been handed in and handed out so far. -/
structure History (R D : Type) where
  world : World R D
  issued : List (R × D)
  released : List (R × D)
deriving DecidableEq, Repr

namespace History

variable {R D : Type}

def empty : History R D := ⟨World.empty, [], []⟩

/-- One step of a run: the operation succeeds or throws, and what it hands in is
new. -/
def step [DecidableEq R] (h : History R D) (l : Op R D × Bool) : Option (History R D) :=
  if ∀ t ∈ l.1.handsIn h.world, t.1 ∉ h.issued.map Prod.fst then
    (h.world.apply l.2 l.1).map fun p =>
      ⟨p.1, h.issued ++ l.1.handsIn h.world, h.released ++ l.1.handsOut h.world⟩
  else
    none

/-- The states of all runs. -/
def Reachable [DecidableEq R] (h : History R D) : Prop :=
  ∃ ls, run step empty ls = some h

end History

/-! ## Reading and writing objects -/

namespace World

variable {R D : Type}

theorem get_eq_some {w : World R D} {i : Nat} {p : ResourcePtr R D} :
    w.get i = some p ↔ w.objs[i]? = some (some p) := by
  unfold get
  cases w.objs[i]? with
  | none => simp
  | some o => simp

/-- An address names one object. -/
theorem get_inj {w : World R D} {i j : Nat} {p q : ResourcePtr R D}
    (hi : w.get i = some p) (hj : w.get j = some q) : i = j → p = q := by
  rintro rfl
  exact Option.some.inj (hi.symm.trans hj)

@[simp] theorem put_objs (w : World R D) (i : Nat) (p : ResourcePtr R D) :
    (w.put i p).objs = w.objs.set i (some p) := rfl

@[simp] theorem call_objs (w : World R D) (c : Option (DeleterCall R D)) :
    (w.call c).objs = w.objs := rfl

@[simp] theorem call_calls (w : World R D) (c : Option (DeleterCall R D)) :
    (w.call c).calls = w.calls ++ c.toList := rfl

@[simp] theorem put_call (w : World R D) (c : Option (DeleterCall R D)) (i : Nat)
    (p : ResourcePtr R D) : (w.call c).put i p = (w.put i p).call c := rfl

theorem get_put_self {w : World R D} {i : Nat} {p : ResourcePtr R D} (h : w.get i = some p)
    (q : ResourcePtr R D) : (w.put i q).get i = some q := by
  have hlt : i < w.objs.length := (List.getElem?_eq_some_iff.mp (get_eq_some.mp h)).1
  exact get_eq_some.mpr (by simp [hlt])

theorem get_put_ne (w : World R D) {i j : Nat} (h : i ≠ j) (q : ResourcePtr R D) :
    (w.put i q).get j = w.get j := by
  unfold get put
  rw [List.getElem?_set_ne h]

@[simp] theorem put_put (w : World R D) (i : Nat) (p q : ResourcePtr R D) :
    (w.put i p).put i q = w.put i q := by
  simp [put]

theorem put_comm (w : World R D) {i j : Nat} (h : i ≠ j) (p q : ResourcePtr R D) :
    (w.put i p).put j q = (w.put j q).put i p := by
  simp [put, List.set_comm _ _ h]

theorem assign_eq_put {w : World R D} {i : Nat} {p : ResourcePtr R D} (h : w.get i = some p)
    (f : ResourcePtr R D → ResourcePtr R D) : w.assign i f = w.put i (f p) := by
  unfold assign
  rw [h]

/-! ## The two-object operations in closed form -/

/-- The move constructor takes the source's three members over and leaves the
source empty. -/
theorem moveConstruct_eq {w : World R D} {r : Nat} {q : ResourcePtr R D} (h : w.get r = some q)
    (moved : R) :
    w.moveConstruct r moved
      = some ((w.put r ⟨moved, q.delete_, false⟩).construct q, .returned) := by
  simp only [moveConstruct, h, Option.bind_eq_bind, Option.bind_some, assign_eq_put h,
    assign_eq_put (get_put_self h _), put_put]
  rfl

/-- Move assignment of an object to itself deletes what it holds, and keeps
nothing. -/
theorem moveAssign_self {w : World R D} {i : Nat} {p : ResourcePtr R D} (h : w.get i = some p)
    (moved : R) (throws : Bool) :
    w.moveAssign i i moved throws =
      if p.dealloc.2.isSome && throws then
        some ((w.put i p.dealloc.1).call p.dealloc.2, .deleterThrew)
      else
        some ((w.put i ⟨moved, p.delete_, false⟩).call p.dealloc.2, .returned) := by
  have hget : ∀ (q : ResourcePtr R D) c, ((w.put i q).call c).get i = some q :=
    fun q c => get_put_self h q
  have hassign : ∀ (q : ResourcePtr R D) c f, ((w.put i q).call c).assign i f
      = (w.put i (f q)).call c := by
    intro q c f
    rw [assign_eq_put (hget q c), put_call, put_put]
  simp only [moveAssign, h, Option.bind_eq_bind, Option.bind_some, hget, hassign]
  split
  · rfl
  · simp

/-- Move assignment between two objects: unless the deleter of the left-hand
side throws, it takes the source's three members over and leaves the source
empty; if the deleter throws, the source is as it was. -/
theorem moveAssign_ne {w : World R D} {i j : Nat} {p q : ResourcePtr R D}
    (hi : w.get i = some p) (hj : w.get j = some q) (hij : i ≠ j)
    (moved : R) (throws : Bool) :
    w.moveAssign i j moved throws =
      if p.dealloc.2.isSome && throws then
        some ((w.put i p.dealloc.1).call p.dealloc.2, .deleterThrew)
      else
        some (((w.put i q).put j ⟨moved, q.delete_, false⟩).call p.dealloc.2, .returned) := by
  have hgeti : ∀ (a : ResourcePtr R D) c, ((w.put i a).call c).get i = some a :=
    fun a c => get_put_self hi a
  have hgetj : ∀ (a : ResourcePtr R D) c, ((w.put i a).call c).get j = some q :=
    fun a c => (get_put_ne w hij a).trans hj
  have hgeti' : ∀ (a b : ResourcePtr R D) c, (((w.put i a).put j b).call c).get i = some a :=
    fun a b c => (get_put_ne _ hij.symm b).trans (get_put_self hi a)
  have hgetj' : ∀ (a b : ResourcePtr R D) c, (((w.put i a).put j b).call c).get j = some b :=
    fun a b c => get_put_self (hgetj a none) b
  simp only [moveAssign, hi, hj, Option.bind_eq_bind, Option.bind_some, hgetj]
  split
  · rfl
  · simp only [assign_eq_put (hgeti _ _), put_call, put_put, assign_eq_put (hgetj _ _),
      hgetj', assign_eq_put (hgeti' _ _ _), put_comm _ hij.symm, assign_eq_put (hgetj' _ _ _),
      Option.bind_some]
    rfl

/-- Assignments to members of two different objects. -/
theorem assign_assign {w : World R D} {i j : Nat} {p q : ResourcePtr R D}
    (hi : w.get i = some p) (hj : w.get j = some q) (hij : i ≠ j)
    (f g : ResourcePtr R D → ResourcePtr R D) :
    (w.assign i f).assign j g = (w.put i (f p)).put j (g q) := by
  rw [assign_eq_put hi, assign_eq_put ((get_put_ne w hij _).trans hj)]

theorem put_put_twice (w : World R D) {i j : Nat} (hij : i ≠ j) (a b c d : ResourcePtr R D) :
    (((w.put i a).put j b).put i c).put j d = (w.put i c).put j d := by
  rw [put_comm _ hij.symm, put_put, put_put]

/-- Swapping two different objects exchanges all three members. -/
theorem swap_ne {w : World R D} {i j : Nat} {p q : ResourcePtr R D}
    (hi : w.get i = some p) (hj : w.get j = some q) (hij : i ≠ j) :
    w.swap i j = some ((w.put i q).put j p, .returned) := by
  have hgeti : ∀ a b : ResourcePtr R D, ((w.put i a).put j b).get i = some a :=
    fun a b => (get_put_ne _ hij.symm b).trans (get_put_self hi a)
  have hgetj : ∀ a b : ResourcePtr R D, ((w.put i a).put j b).get j = some b :=
    fun a b => get_put_self ((get_put_ne w hij a).trans hj) b
  have hagain : ∀ (a b : ResourcePtr R D) f g,
      (((w.put i a).put j b).assign i f).assign j g = (w.put i (f a)).put j (g b) := by
    intro a b f g
    rw [assign_assign (hgeti a b) (hgetj a b) hij, put_put_twice w hij]
  simp only [swap, hi, hj, Option.bind_eq_bind, Option.bind_some, if_neg hij,
    assign_assign hi hj hij, hagain]
  rfl

/-- An object swapped with itself stays as it is. -/
theorem swap_self {w : World R D} {i : Nat} {p : ResourcePtr R D} (h : w.get i = some p) :
    w.swap i i = some (w, .returned) := by
  simp only [swap, h, Option.bind_eq_bind, Option.bind_some, if_pos]
  rfl

/-! ## The one-object operations in closed form -/

theorem apply_reset {w : World R D} {i : Nat} {p : ResourcePtr R D} (h : w.get i = some p)
    (throws : Bool) (r : R) :
    w.apply throws (.reset i r) =
      some ((w.put i (p.reset r).1).call (p.reset r).2, callOutcome (p.reset r).2 throws) := by
  simp [apply, h]

theorem apply_dealloc {w : World R D} {i : Nat} {p : ResourcePtr R D} (h : w.get i = some p)
    (throws : Bool) :
    w.apply throws (.dealloc i) =
      some ((w.put i p.dealloc.1).call p.dealloc.2, callOutcome p.dealloc.2 throws) := by
  simp [apply, h]

theorem apply_destroy {w : World R D} {i : Nat} {p : ResourcePtr R D} (h : w.get i = some p)
    (throws : Bool) :
    w.apply throws (.destroy i) = some ((w.remove i).call p.dealloc.2, .returned) := by
  simp [apply, h]

theorem apply_get {w : World R D} {i : Nat} {p : ResourcePtr R D} (h : w.get i = some p)
    (throws : Bool) :
    w.apply throws (.get i) = some (w, match p.get with
      | .ok r => .gave r
      | .error e => .logicError e) := by
  simp only [apply, h, Option.bind_eq_bind, Option.bind_some]
  cases p.get <;> rfl

theorem apply_release {w : World R D} {i : Nat} {p : ResourcePtr R D} (h : w.get i = some p)
    (throws : Bool) :
    w.apply throws (.release i) = some (match p.release with
      | .ok (r, q) => (w.put i q, .gave r)
      | .error e => (w, .logicError e)) := by
  simp only [apply, h, Option.bind_eq_bind, Option.bind_some]
  cases p.release <;> rfl

end World

end LomiriApi
