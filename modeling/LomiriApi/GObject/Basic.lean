import LomiriApi.Basic
import Mathlib.Data.List.Basic

/-!
# Smart pointers to GObjects (GObjectMemory.h)

- `GObject`: a reference count and the floating flag. Two further counts, `taken`
  and `unrefs`, record how many owned references there have been and how often
  `g_object_unref` was called; no function reads them.
- `GWorld`: the objects, the smart pointers that the helpers have made, and the
  references that C code owns.
- `uniqueGobject`, `shareGobject`, `makeGobject`, `assignGobject`, `deleter`: the
  helpers. Unless it is copied, a shared pointer owns its object like a unique one.
- `GWorld.step`: the helpers, moves, resets and destruction of the pointers, and C
  code that creates objects and takes and releases references of its own.
-/

namespace LomiriApi

structure GObject where
  refCount : Nat
  floating : Bool
  taken : Nat
  unrefs : Nat
deriving DecidableEq, Repr

namespace GObject

/-- `g_object_new`: one reference, floating if the type is initially unowned. A floating
reference has not been taken by anybody. -/
def new (initiallyUnowned : Bool) : GObject :=
  ⟨1, initiallyUnowned, if initiallyUnowned then 0 else 1, 0⟩

/-- `g_object_ref`. -/
def ref (obj : GObject) : GObject :=
  { obj with refCount := obj.refCount + 1, taken := obj.taken + 1 }

/-- `g_object_ref_sink`: a floating reference becomes an owned one. An object that does not
float gets one reference more. -/
def refSink (obj : GObject) : GObject :=
  if obj.floating then { obj with floating := false, taken := obj.taken + 1 } else obj.ref

/-- `g_object_unref`. An object without references is finalised. The calls are counted, so
that references released can be compared with references taken. -/
def unref (obj : GObject) : GObject :=
  { obj with refCount := obj.refCount - 1, unrefs := obj.unrefs + 1 }

/-- The floating reference is taken for an owned one. Nothing happens to the object; it is
the owner who is mistaken. -/
def adopt (obj : GObject) : GObject := { obj with taken := obj.taken + 1 }

end GObject

structure GWorld where
  objs : List GObject
  /-- the smart pointers; one that was destroyed is null -/
  ptrs : List (Option Nat)
  /-- the references that C code owns, by object -/
  cRefs : List Nat
deriving DecidableEq, Repr

/-- What the program does. Objects and pointers are given by number. -/
inductive GOp where
  /-- C code creates an object -/
  | newObject (initiallyUnowned : Bool)
  /-- C code takes a reference -/
  | ref (o : Nat)
  | refSink (o : Nat)
  /-- C code releases a reference of its own -/
  | unref (o : Nat)
  | makeGobject (initiallyUnowned : Bool)
  /-- wrap an object, whose owner hands its reference over -/
  | uniqueGobject (ptr : Option Nat)
  | shareGobject (ptr : Option Nat)
  /-- a C function stores `ptr` through `assign_gobject(i)` -/
  | assignGobject (i : Nat) (ptr : Option Nat)
  | moveConstruct (i : Nat)
  | moveAssign (i j : Nat)
  | reset (i : Nat)
  | destroy (i : Nat)
deriving DecidableEq, Repr

namespace GWorld

/-- `G_IS_OBJECT`, which no longer holds of an object that is finalised. -/
def isObject (w : GWorld) (o : Nat) : Bool := (w.objs[o]?).any fun obj => 0 < obj.refCount

/-- `g_object_is_floating` -/
def isFloating (w : GWorld) (o : Nat) : Bool := (w.objs[o]?).any GObject.floating

def update (w : GWorld) (o : Nat) (f : GObject → GObject) : GWorld :=
  { w with objs := w.objs.modify o f }

/-- What `check_floating_gobject` throws. -/
def floatingMessage : Text :=
  "cannot manage floating GObject reference - call g_object_ref_sink(o) first"

/-- `check_floating_gobject` throws `std::invalid_argument`. A null pointer passes. -/
def checkFloatingGobject (w : GWorld) : Option Nat → Except Text Unit
  | none => .ok ()
  | some t => if w.isObject t && w.isFloating t then .error floatingMessage else .ok ()

/-- `GObjectDeleter`. It asks `G_IS_OBJECT` first, so a null pointer does no harm. -/
def deleter (w : GWorld) : Option Nat → GWorld
  | none => w
  | some o => if w.isObject o then w.update o GObject.unref else w

/-- What `unique_gobject` and `share_gobject` have in common: the check, and a new pointer
with the deleter. No reference is taken, the caller's is taken over. -/
def wrapGobject (w : GWorld) (ptr : Option Nat) : Except Text GWorld := do
  w.checkFloatingGobject ptr
  return { w with ptrs := w.ptrs ++ [ptr] }

def uniqueGobject (w : GWorld) (ptr : Option Nat) : Except Text GWorld := w.wrapGobject ptr

def shareGobject (w : GWorld) (ptr : Option Nat) : Except Text GWorld := w.wrapGobject ptr

/-- `make_gobject` is `noexcept`: if `unique_gobject` threw, the program would end. -/
def makeGobject (w : GWorld) (initiallyUnowned : Bool) : Option GWorld :=
  let ptr := w.objs.length
  let w : GWorld := { w with objs := w.objs ++ [GObject.new initiallyUnowned] }
  let w := if w.isObject ptr && w.isFloating ptr then w.update ptr GObject.refSink else w
  match w.uniqueGobject (some ptr) with
  | .ok w => some w
  | .error _ => none

/-- The destructor of the `GObjectAssigner` for the pointer `i`: what was stored is
wrapped as it is and assigned. -/
def assignGobject (w : GWorld) (i : Nat) (ptr : Option Nat) : Option GWorld :=
  match w.ptrs[i]? with
  | some old => some ({ w with ptrs := w.ptrs.set i ptr }.deleter old)
  | none => none

/-- A C function hands out a reference to what it stores: one of C's own or, from a
floating object, the floating one. The constructor of an initially unowned object does the
latter. -/
def handOut (w : GWorld) : Option Nat → Option GWorld
  | none => some w
  | some o =>
    if w.isFloating o then (if w.isObject o then some (w.update o GObject.adopt) else none)
    else if o ∈ w.cRefs then some { w with cRefs := w.cRefs.erase o }
    else none

/-- The owner of a reference calls a helper and, if that returns, has handed the reference
over. If it throws, the reference is the owner's still. -/
def handOver (w : GWorld) (ptr : Option Nat) (r : Except Text GWorld) : Option GWorld :=
  match r, ptr with
  | .error _, _ => some w
  | .ok w', none => some w'
  | .ok w', some o => if o ∈ w'.cRefs then some { w' with cRefs := w'.cRefs.erase o } else none

/-- The pointer `i` becomes null and what it held is released. -/
def reset (w : GWorld) (i : Nat) : Option GWorld :=
  match w.ptrs[i]? with
  | some old => some ({ w with ptrs := w.ptrs.set i none }.deleter old)
  | none => none

/-- One operation; `none` if the program may not do it, or if it would be
terminated. -/
def step (w : GWorld) : GOp → Option GWorld
  | .newObject initiallyUnowned =>
    some { w with
      objs := w.objs ++ [GObject.new initiallyUnowned]
      cRefs := if initiallyUnowned then w.cRefs else w.objs.length :: w.cRefs }
  | .ref o =>
    if w.isObject o then some ({ w with cRefs := o :: w.cRefs }.update o GObject.ref) else none
  | .refSink o =>
    if w.isObject o then some ({ w with cRefs := o :: w.cRefs }.update o GObject.refSink) else none
  | .unref o =>
    if o ∈ w.cRefs then some ({ w with cRefs := w.cRefs.erase o }.update o GObject.unref) else none
  | .makeGobject initiallyUnowned => w.makeGobject initiallyUnowned
  | .uniqueGobject ptr => w.handOver ptr (w.uniqueGobject ptr)
  | .shareGobject ptr => w.handOver ptr (w.shareGobject ptr)
  | .assignGobject i ptr => (w.handOut ptr).bind fun w => w.assignGobject i ptr
  | .moveConstruct i =>
    match w.ptrs[i]? with
    | some p => some { w with ptrs := w.ptrs.set i none ++ [p] }
    | none => none
  | .moveAssign i j =>
    match w.ptrs[i]? with
    | some p =>
      let w : GWorld := { w with ptrs := w.ptrs.set i none }
      match w.ptrs[j]? with
      | some old => some ({ w with ptrs := w.ptrs.set j p }.deleter old)
      | none => none
    | none => none
  | .reset i => w.reset i
  | .destroy i => w.reset i

/-! ## What the helpers do -/

/-- A floating object is refused. -/
theorem wrapGobject_floating {w : GWorld} {o : Nat} (hobj : w.isObject o = true)
    (hfl : w.isFloating o = true) : w.wrapGobject (some o) = .error floatingMessage := by
  have hcheck : w.checkFloatingGobject (some o) = .error floatingMessage := by
    rw [checkFloatingGobject, hobj, hfl]
    rfl
  rw [wrapGobject, hcheck]
  rfl

/-- Any other pointer is wrapped. -/
theorem wrapGobject_of_not_floating {w : GWorld} {o : Nat} (hfl : w.isFloating o = false) :
    w.wrapGobject (some o) = .ok { w with ptrs := w.ptrs ++ [some o] } := by
  have hcheck : w.checkFloatingGobject (some o) = .ok () := by
    rw [checkFloatingGobject, hfl, Bool.and_false]
    rfl
  rw [wrapGobject, hcheck]
  rfl

/-- What a wrapping helper returns. -/
theorem wrapGobject_ok {w w' : GWorld} {ptr : Option Nat} (h : w.wrapGobject ptr = .ok w') :
    w' = { w with ptrs := w.ptrs ++ [ptr] } := by
  unfold wrapGobject at h
  cases hcheck : w.checkFloatingGobject ptr with
  | error e =>
    rw [hcheck] at h
    cases h
  | ok u =>
    rw [hcheck] at h
    exact (Except.ok.inj h).symm

theorem update_new (w : GWorld) (obj : GObject) (f : GObject → GObject) :
    update { w with objs := w.objs ++ [obj] } w.objs.length f =
      { w with objs := w.objs ++ [f obj] } := by
  have hmodify : (w.objs ++ [obj]).modify w.objs.length f = w.objs ++ [f obj] :=
    List.modifyTailIdx_add (List.modifyHead f) 0 w.objs [obj]
  rw [update, hmodify]

/-- `make_gobject` never ends the program; it makes an object with one owned reference. It
sinks a floating one before the check can find it. -/
theorem makeGobject_eq (w : GWorld) (initiallyUnowned : Bool) :
    w.makeGobject initiallyUnowned = some { w with
      objs := w.objs ++ [⟨1, false, 1, 0⟩]
      ptrs := w.ptrs ++ [some w.objs.length] } := by
  have hget : ∀ obj, (w.objs ++ [obj])[w.objs.length]? = some obj := by simp
  -- either way the new object is not floating when it is wrapped
  have hsunk : ∀ b, (let v : GWorld := { w with objs := w.objs ++ [GObject.new b] }
      if v.isObject w.objs.length && v.isFloating w.objs.length then
        v.update w.objs.length GObject.refSink else v) =
      { w with objs := w.objs ++ [⟨1, false, 1, 0⟩] } := by
    intro b
    simp only [isObject, isFloating, hget, update_new]
    cases b <;> rfl
  have hwrap :
      uniqueGobject { w with objs := w.objs ++ [⟨1, false, 1, 0⟩] } (some w.objs.length) =
        .ok { w with
          objs := w.objs ++ [⟨1, false, 1, 0⟩]
          ptrs := w.ptrs ++ [some w.objs.length] } := by
    refine wrapGobject_of_not_floating ?_
    rw [isFloating, hget]
    rfl
  rw [makeGobject, hsunk, hwrap]

end GWorld

end LomiriApi
