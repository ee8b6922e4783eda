import LomiriApi.GObject.Ownership
import LomiriApi.ResourcePtr.Custody
import Mathlib.Data.Finset.Card

/-!
# Signal connections (GObjectMemory.h, GioMemory.h)

A `GObjectSignalConnection<T>` is a `ResourcePtr` that holds the number of a signal
handler. Its deleter, the unsubscriber, has a shared pointer to the object, so it keeps
the object alive, and disconnects the handler. `GDBusSignalConnection` is the same for
the subscriptions of a bus connection.

- `GSignals C`: the functions of GLib for objects and for handlers of one of the two
  kinds, which are not part of the repository and so a parameter; `GSignals.Laws`: what
  is relied on.
- `SignalWorld`: the objects; control blocks of shared pointers and the client's copies of
  these; the connections, which are a `World` of `ResourcePtr`s; and what the client
  itself has to release.
- `SignalWorld.unsubscribe`, `SignalWorld.dropCopy`: the unsubscriber, and the end of a
  copy of a shared pointer.
- `SignalWorld.step`: C code that creates objects, takes and releases references, connects
  handlers and disconnects any of them, the client's shared pointers, and all operations on
  connections.
- `SignalWorld.Managed`, `SignalWorld.Proper`: what is promised, and what has to be
  observed for it.

A shared pointer is given by the number of its control block. The number of copies of it
is that of the client's and of the unsubscribers' pointers; when none is left, the object
is unreferenced.
-/

namespace LomiriApi

open Lib

/-! ## What GLib does -/

/-- The functions of GLib that signal connections rest on, over the states `C` of the
objects. An object is given by its address. Handlers are those of `g_signal_connect`, or
the subscriptions of `g_dbus_connection_signal_subscribe`. -/
structure GSignals (C : Type) where
  /-- how many references there are to an object; without any there is no object -/
  refCount : C → Nat → Nat
  /-- whether the object has a handler with this number -/
  isConnected : C → Nat → Nat → Bool
  /-- `g_object_new` -/
  objectNew : C → C × Nat
  /-- `g_object_ref` -/
  objectRef : C → Nat → C
  /-- `g_object_unref` -/
  objectUnref : C → Nat → C
  /-- `g_signal_connect`: the number of the handler, or 0 if it fails -/
  signalConnect : C → Nat → Text → C × Nat
  /-- `g_signal_handler_disconnect`, or `g_dbus_connection_signal_unsubscribe` -/
  handlerDisconnect : C → Nat → Nat → C

/-- What is assumed of them. What is not an object any more may have left its address and
the numbers of its handlers to others. -/
structure GSignals.Laws {C : Type} (G : GSignals C) : Prop where
  /-- handlers are those of an object, and have positive numbers -/
  connected : ∀ c o h, G.isConnected c o h = true → 0 < G.refCount c o ∧ 0 < h
  /-- no two handlers have the same number -/
  unique : ∀ c o o' h, G.isConnected c o h = true → G.isConnected c o' h = true → o = o'
  /-- a new object is at an address where there is none -/
  objectNew_fresh : ∀ c, G.refCount c (G.objectNew c).2 = 0
  /-- it has one reference -/
  refCount_objectNew : ∀ c k,
    G.refCount (G.objectNew c).1 k = G.refCount c k + refersTo k (some (G.objectNew c).2)
  /-- and no handlers yet -/
  isConnected_objectNew : ∀ c k h,
    G.isConnected (G.objectNew c).1 k h = G.isConnected c k h
  /-- one reference more, to this object only -/
  refCount_objectRef : ∀ c o k, 0 < G.refCount c o →
    G.refCount (G.objectRef c o) k = G.refCount c k + refersTo k (some o)
  isConnected_objectRef : ∀ c o k h, 0 < G.refCount c o →
    G.isConnected (G.objectRef c o) k h = G.isConnected c k h
  /-- one reference less; without any the object is finalised -/
  refCount_objectUnref : ∀ c o k, 0 < G.refCount c o →
    G.refCount (G.objectUnref c o) k = G.refCount c k - refersTo k (some o)
  /-- an object that is finalised has no handlers any more -/
  isConnected_objectUnref : ∀ c o k h, 0 < G.refCount c o →
    (G.isConnected (G.objectUnref c o) k h = true ↔
      G.isConnected c k h = true ∧ 0 < G.refCount (G.objectUnref c o) k)
  /-- the number of a new handler is that of none which is connected, wherever -/
  signalConnect_fresh : ∀ c o signal k, 0 < G.refCount c o →
    G.isConnected c k (G.signalConnect c o signal).2 = false
  refCount_signalConnect : ∀ c o signal k, 0 < G.refCount c o →
    G.refCount (G.signalConnect c o signal).1 k = G.refCount c k
  /-- the new handler is connected, unless connecting it has failed -/
  isConnected_signalConnect : ∀ c o signal k h, 0 < G.refCount c o →
    (G.isConnected (G.signalConnect c o signal).1 k h = true ↔
      G.isConnected c k h = true ∨ (k = o ∧ h = (G.signalConnect c o signal).2 ∧ h ≠ 0))
  refCount_handlerDisconnect : ∀ c o h k, 0 < G.refCount c o →
    G.refCount (G.handlerDisconnect c o h) k = G.refCount c k
  /-- the handler is connected no longer; without such a handler there is a warning, and
  nothing happens -/
  isConnected_handlerDisconnect : ∀ c o h k j, 0 < G.refCount c o →
    (G.isConnected (G.handlerDisconnect c o h) k j = true ↔
      G.isConnected c k j = true ∧ (k, j) ≠ (o, h))

/-! ## Objects, pointers and connections -/

/-- An unsubscriber is given by its shared pointer, `obj_` or `bus_`; `none` is null. It is
the deleter of a connection, and keeps the object alive as long as the connection
exists. -/
abbrev Unsubscriber := Option Nat

structure SignalWorld (C : Type) where
  objects : C
  /-- the references that C code owns, by object -/
  cRefs : List Nat
  /-- the object of each control block -/
  blocks : List Nat
  /-- the client's shared pointers; one that was destroyed is null -/
  ptrs : List (Option Nat)
  /-- the handlers that are the client's to disconnect -/
  loose : List Nat
  /-- disconnections of handlers that were not there: GLib prints a warning -/
  missed : List (Nat × Nat)
  conns : World Nat Unsubscriber

/-- What the program does. -/
inductive SignalOp where
  /-- C code creates an object -/
  | newObject
  /-- C code takes a reference -/
  | ref (o : Nat)
  /-- C code releases a reference, be it one of its own or not -/
  | unref (o : Nat)
  /-- a reference is handed over to a new shared pointer, whoever owned it -/
  | shareGobject (o : Nat)
  | copyPtr (i : Nat)
  | resetPtr (i : Nat)
  /-- `g_signal_connect` -/
  | connect (o : Nat) (signal : Text)
  /-- the client disconnects a handler, be it one of its own, that of a connection, or one
  that is gone -/
  | disconnect (o h : Nat)
  /-- an operation on connections -/
  | connection (op : Op Nat Unsubscriber)
deriving DecidableEq, Repr

/-- `gobject_signal_connection(id, obj)`. -/
def gobjectSignalConnection (id : Nat) (obj : Option Nat) : SignalOp :=
  .connection (.ofResource id obj)

/-- `gdbus_signal_connection(id, bus)`. -/
def gdbusSignalConnection (id : Nat) (bus : Option Nat) : SignalOp :=
  .connection (.ofResource id bus)

namespace SignalWorld

/-- Before there are any pointers and connections, over some state of the objects. -/
def initial {C : Type} (c : C) : SignalWorld C := ⟨c, [], [], [], [], [], World.empty⟩

section Model

variable {C : Type} (G : GSignals C)

/-- `G_IS_OBJECT`: there is an object at the address. It may not be the one that was there
once. -/
def IsObject (s : SignalWorld C) (o : Nat) : Prop := 0 < G.refCount s.objects o

instance (s : SignalWorld C) (o : Nat) : Decidable (s.IsObject G o) :=
  inferInstanceAs (Decidable (_ < _))

/-- `get()` of a shared pointer: the object that its control block is for. -/
def target (s : SignalWorld C) (p : Option Nat) : Option Nat := p.bind fun g => s.blocks[g]?

/-- The handler is connected at the object. -/
def Connected (s : SignalWorld C) (o h : Nat) : Prop := G.isConnected s.objects o h = true

instance (s : SignalWorld C) (o h : Nat) : Decidable (s.Connected G o h) :=
  inferInstanceAs (Decidable (_ = _))

/-- The copies of a shared pointer: the client's, and those of the unsubscribers. While
there is one, the control block is there and so is its reference. -/
def useCount (s : SignalWorld C) (g : Nat) : Nat :=
  total (refersTo g) s.ptrs + s.conns.deleters (refersTo g)

/-- `g_object_unref` -/
def gObjectUnref (s : SignalWorld C) (o : Nat) : SignalWorld C :=
  { s with objects := G.objectUnref s.objects o }

/-- `share_gobject`: a new control block, and the pointer that is returned. -/
def shareGobject (s : SignalWorld C) (o : Nat) : SignalWorld C :=
  { s with blocks := s.blocks ++ [o], ptrs := s.ptrs ++ [some s.blocks.length] }

/-- `GObjectDeleter` -/
def gobjectDeleter (s : SignalWorld C) (o : Nat) : SignalWorld C :=
  if s.IsObject G o then s.gObjectUnref G o else s

/-- A copy of a shared pointer is gone. The last one calls the deleter, which may finalise
the object and disconnect all its handlers. -/
def dropCopy (s : SignalWorld C) (p : Option Nat) : SignalWorld C :=
  match p with
  | none => s
  | some g =>
    if s.useCount g = 0 then
      match s.blocks[g]? with
      | some o => s.gobjectDeleter G o
      | none => s
    else s

/-- `g_signal_handler_disconnect`, and `g_dbus_connection_signal_unsubscribe`. A number
that no handler of the object has is recorded as missed, where GLib would print a
warning. -/
def signalHandlerDisconnect (s : SignalWorld C) (o h : Nat) : SignalWorld C :=
  { s with
    objects := G.handlerDisconnect s.objects o h
    missed := if s.Connected G o h then s.missed else (o, h) :: s.missed }

/-- `operator()` of `GObjectSignalUnsubscriber` and `GDBusSignalUnsubscriber`. Without an
object it does nothing; so too for the number 0. -/
def unsubscribe (s : SignalWorld C) (c : DeleterCall Nat Unsubscriber) : SignalWorld C :=
  match s.target c.deleter with
  | some o =>
    if c.resource ≠ 0 ∧ s.IsObject G o then s.signalHandlerDisconnect G o c.resource else s
  | none => s  -- `G_IS_OBJECT` of a null pointer

/-- There is a copy of the shared pointer that the program makes an unsubscriber of, be it
the client's own or in the deleter of another connection; the default constructor makes a
null one. -/
def HasUnsubscriber (s : SignalWorld C) : Op Nat Unsubscriber → Prop
  | .default _ d => d = none
  | .ofDeleter _ d | .ofResource _ d => ∀ g ∈ d, 0 < s.useCount g
  | _ => True

instance (s : SignalWorld C) (op : Op Nat Unsubscriber) : Decidable (s.HasUnsubscriber op) := by
  cases op <;> unfold HasUnsubscriber <;> infer_instance

/-- An operation on connections: the connections change, the unsubscriber is called, and
a copy of a shared pointer goes. -/
def connection (s : SignalWorld C) (op : Op Nat Unsubscriber) : Option (SignalWorld C) :=
  (s.conns.apply false op).map fun (w, _) =>
    let t := { s with conns := w, loose := op.looseAfter s.conns s.loose }
    ((World.callsSince s.conns w).foldl (unsubscribe G) t).dropCopy G
      (op.dropsCopy s.conns).join

/-- One operation; `none` if it is not possible. The functions of GLib are called on
objects only, for the rest it does not matter whether the program should call them. -/
def step (s : SignalWorld C) : SignalOp → Option (SignalWorld C)
  | .newObject =>
    let (objects, o) := G.objectNew s.objects
    some { s with objects := objects, cRefs := o :: s.cRefs }
  | .ref o =>
    if s.IsObject G o then
      some { s with objects := G.objectRef s.objects o, cRefs := o :: s.cRefs }
    else none
  | .unref o =>
    if s.IsObject G o then some ({ s with cRefs := s.cRefs.erase o }.gObjectUnref G o) else none
  | .shareGobject o =>
    if s.IsObject G o then some ({ s with cRefs := s.cRefs.erase o }.shareGobject o) else none
  | .copyPtr i =>
    match s.ptrs[i]? with
    | some p => some { s with ptrs := s.ptrs ++ [p] }
    | none => none
  | .resetPtr i =>
    match s.ptrs[i]? with
    | some p => some ({ s with ptrs := s.ptrs.set i none }.dropCopy G p)
    | none => none
  | .connect o signal =>
    if s.IsObject G o then
      let (objects, h) := G.signalConnect s.objects o signal
      -- a number that was that of another handler before stands for the new one now
      some { s with
        objects := objects
        loose := if h = 0 then s.loose else h :: s.loose.filter (· ≠ h) }
    else none
  | .disconnect o h =>
    if s.IsObject G o then
      some ({ s with loose := s.loose.erase h }.signalHandlerDisconnect G o h)
    else none
  | .connection op => if s.HasUnsubscriber op then s.connection G op else none

/-! ## What is promised -/

/-- The control blocks of an object that have copies left. Each owns a reference, however
many copies there are. -/
def liveBlocks (s : SignalWorld C) (o : Nat) : Finset Nat :=
  (Finset.range s.blocks.length).filter fun g => s.blocks[g]? = some o ∧ 0 < s.useCount g

/-- How many references to `o` are owned. -/
def owners (s : SignalWorld C) (o : Nat) : Nat := s.cRefs.count o + (s.liveBlocks o).card

/-- The handler is connected at the object that the unsubscriber keeps alive. 0 is what
`g_signal_connect` returns when it fails. -/
def Matches (s : SignalWorld C) (x : Nat × Unsubscriber) : Prop :=
  x.1 ≠ 0 → ∃ o ∈ s.target x.2, s.Connected G o x.1

instance (s : SignalWorld C) (x : Nat × Unsubscriber) : Decidable (s.Matches G x) :=
  inferInstanceAs (Decidable (_ → _))

/-- Who disconnects which handler: the handler that a connection holds is connected at its
unsubscriber's object; nobody else is going to disconnect it; every handler that is
connected has somebody who will; and no handler was disconnected that was not there. -/
structure Handled (s : SignalWorld C) : Prop where
  held : ∀ x ∈ s.conns.heldPairs, s.Matches G x
  once : s.conns.OneOwner s.loose
  complete : ∀ o h, s.Connected G o h → h ∈ s.conns.heldNumbers ∨ h ∈ s.loose
  none_missed : s.missed = []

/-- **What is promised of connections.** Handlers are disconnected as they should be, each
reference to an object has one owner, and so an object lives exactly as long as somebody
has a reference to it. -/
structure Managed (s : SignalWorld C) : Prop extends Handled G s where
  counted : ∀ o, G.refCount s.objects o = s.owners o
  alive : ∀ o, s.IsObject G o ↔ o ∈ s.cRefs ∨ ∃ g, s.blocks[g]? = some o ∧ 0 < s.useCount g

/-- C code releases and hands over references of its own, the client disconnects handlers
of its own, and what is handed to a connection, by a constructor or by `reset()`, is a
handler of the client's at the very object that the unsubscriber points to (or 0). Nothing
is said of other operations. -/
def Proper (s : SignalWorld C) : SignalOp → Prop
  | .unref o | .shareGobject o => o ∈ s.cRefs
  | .disconnect o h => h ∈ s.loose ∧ s.Connected G o h
  | .connection op => ∀ x ∈ op.handsIn s.conns, s.Matches G x ∧ (x.1 ≠ 0 → x.1 ∈ s.loose)
  | _ => True

instance (s : SignalWorld C) (op : SignalOp) : Decidable (s.Proper G op) := by
  cases op <;> unfold Proper <;> infer_instance

end Model

end SignalWorld

end LomiriApi
