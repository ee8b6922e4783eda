import LomiriApi.GObject.SignalCounts
import LomiriApi.GObject.CountingSignals

/-!
# Who disconnects which handler

- `SignalWorld.Inv`: the invariant of a run whose steps are proper.
- `SignalWorld.Connects`: what an operation on connections does to handlers.
- `SignalWorld.managed_iff`: what is promised of connections holds in a run exactly if
  every handler that is handed to a connection is one of its unsubscriber's object, and
  the client's to hand over, and nobody disconnects or releases what is not its own.

So a connection may be moved, swapped, reset, released and destroyed in any order, and
the client may drop its own pointers to the object at any time. What goes wrong is, for
instance, `reset(id)` on a connection that was default-constructed, or that holds a
handler of another object; and disconnecting the handler that a connection holds.
-/

namespace LomiriApi

open Lib

namespace SignalWorld

variable {C : Type} {G : GSignals C}

/-- The invariant of a run whose steps are proper. -/
structure Inv (G : GSignals C) (s : SignalWorld C) : Prop where
  counts : s.InHand G none
  handled : s.Handled G

theorem Inv.managed {s : SignalWorld C} (h : s.Inv G) : s.Managed G :=
  ⟨h.handled, h.counts.refCount, h.counts.alive⟩

/-! ## Objects and pointers -/

section Pointers

variable {s t : SignalWorld C}

/-- `t` differs from `s` in objects and shared pointers only. Objects that were finalised
have lost their handlers. -/
structure OnlyPointers (G : GSignals C) (s t : SignalWorld C) : Prop where
  conns : t.conns = s.conns
  loose : t.loose = s.loose
  missed : t.missed = s.missed
  blocks : s.blocks <+: t.blocks
  connected : ∀ o h, t.Connected G o h ↔ s.Connected G o h ∧ t.IsObject G o

theorem OnlyPointers.target (hst : OnlyPointers G s t) {p : Option Nat} {o : Nat}
    (h : s.target p = some o) : t.target p = some o := by
  obtain ⟨g, rfl, hg⟩ := Option.bind_eq_some_iff.mp h
  obtain ⟨new, hnew⟩ := hst.blocks
  refine Option.bind_eq_some_iff.mpr ⟨g, rfl, ?_⟩
  rw [← hnew, List.getElem?_append_left (List.getElem?_eq_some_iff.mp hg).1]
  exact hg

/-- Handlers stay as they are, as connections keep their objects alive. -/
theorem Handled.of_onlyPointers (h : s.Handled G) (hst : OnlyPointers G s t)
    (ht : t.InHand G none) : t.Handled G where
  held x hx hne := by
    obtain ⟨o, ho, hconnected⟩ := h.held x (hst.conns ▸ hx) hne
    have ho' := hst.target ho
    exact ⟨o, ho', (hst.connected o _).mpr ⟨hconnected, ht.isObject_held hx ho'⟩⟩
  once k hk := by
    rw [hst.conns, hst.loose]
    exact h.once k hk
  complete o k hk := by
    rw [hst.conns, hst.loose]
    exact h.complete o k ((hst.connected o k).mp hk).1
  none_missed := hst.missed.trans h.none_missed

theorem Inv.of_onlyPointers (h : s.Inv G) (hst : OnlyPointers G s t) (ht : t.InHand G none) :
    t.Inv G := ⟨ht, h.handled.of_onlyPointers hst ht⟩

variable (hG : G.Laws)

include hG

/-- Handlers are those of objects: a finalised object has none. -/
theorem Connected.isObject {o h : Nat} (hc : s.Connected G o h) : s.IsObject G o :=
  (hG.connected _ _ _ hc).1

/-- No handler has the number 0, so 0 can stand for a failed connection. -/
theorem Connected.ne_zero {o h : Nat} (hc : s.Connected G o h) : h ≠ 0 :=
  Nat.pos_iff_ne_zero.mp (hG.connected _ _ _ hc).2

/-- Giving up a copy of a pointer changes no connection. -/
theorem dropCopy_onlyPointers (s : SignalWorld C) (p : Option Nat) :
    OnlyPointers G s (s.dropCopy G p) := by
  obtain ⟨objects, heq, hconnected⟩ := dropCopy_eq hG s p
  rw [heq]
  exact ⟨rfl, rfl, rfl, List.prefix_rfl, hconnected⟩

/-! ## One step: objects, pointers and handlers -/

/-- The reference of a new object is C code's. -/
theorem Inv.newObject (h : s.Inv G) (hstep : s.step G .newObject = some t) : t.Inv G := by
  obtain rfl := Option.some.inj hstep
  refine h.of_onlyPointers ⟨rfl, rfl, rfl, List.prefix_rfl, fun o k => ?_⟩ (h.counts.new hG).toC
  show G.isConnected (G.objectNew s.objects).1 o k = true ↔
    s.Connected G o k ∧ 0 < G.refCount (G.objectNew s.objects).1 o
  rw [hG.isConnected_objectNew, hG.refCount_objectNew]
  exact ⟨fun hc => ⟨hc, Nat.add_pos_left (Connected.isObject hG hc) _⟩, And.left⟩

theorem Inv.ref {o : Nat} (h : s.Inv G) (hstep : s.step G (.ref o) = some t) : t.Inv G := by
  simp only [step] at hstep
  split at hstep
  · rename_i ho
    obtain rfl := Option.some.inj hstep
    refine h.of_onlyPointers ⟨rfl, rfl, rfl, List.prefix_rfl, fun o' k => ?_⟩
      (h.counts.ref hG ho).toC
    show G.isConnected (G.objectRef s.objects o) o' k = true ↔
      s.Connected G o' k ∧ 0 < G.refCount (G.objectRef s.objects o) o'
    rw [hG.isConnected_objectRef _ _ _ _ ho, hG.refCount_objectRef _ _ _ ho]
    exact ⟨fun hc => ⟨hc, Nat.add_pos_left (Connected.isObject hG hc) _⟩, And.left⟩
  · cases hstep

/-- C code releases a reference of its own. Handlers go with the object if it was the
last. -/
theorem Inv.unref {o : Nat} (h : s.Inv G) (hstep : s.step G (.unref o) = some t)
    (hproper : s.Proper G (.unref o)) : t.Inv G := by
  simp only [step] at hstep
  split at hstep
  · rename_i ho
    obtain rfl := Option.some.inj hstep
    exact h.of_onlyPointers ⟨rfl, rfl, rfl, List.prefix_rfl,
      fun o' k => hG.isConnected_objectUnref _ _ _ _ ho⟩ ((h.counts.fromC hproper).unref hG)
  · cases hstep

/-- Where neither objects nor connections change, no handler does. -/
theorem onlyPointers_of_eq (hobjects : t.objects = s.objects) (hconns : t.conns = s.conns)
    (hloose : t.loose = s.loose) (hmissed : t.missed = s.missed)
    (hblocks : s.blocks <+: t.blocks) : OnlyPointers G s t := by
  refine ⟨hconns, hloose, hmissed, hblocks, fun o k => ?_⟩
  rw [Connected, IsObject, hobjects]
  exact ⟨fun hc => ⟨hc, Connected.isObject hG hc⟩, And.left⟩

/-- A shared pointer takes over a reference of C code's. -/
theorem Inv.shareGobject {o : Nat} (h : s.Inv G) (hstep : s.step G (.shareGobject o) = some t)
    (hproper : s.Proper G (.shareGobject o)) : t.Inv G := by
  simp only [step] at hstep
  split at hstep
  · obtain rfl := Option.some.inj hstep
    exact h.of_onlyPointers (onlyPointers_of_eq hG rfl rfl rfl rfl (List.prefix_append _ _))
      (h.counts.fromC hproper).share
  · cases hstep

/-- A copy of a pointer owns no reference of its own; the control block does. -/
theorem Inv.copyPtr {i : Nat} (h : s.Inv G) (hstep : s.step G (.copyPtr i) = some t) :
    t.Inv G := by
  simp only [step] at hstep
  split at hstep
  · rename_i p hp
    obtain rfl := Option.some.inj hstep
    refine h.of_onlyPointers (onlyPointers_of_eq hG rfl rfl rfl rfl List.prefix_rfl)
      (h.counts.of_same (fun _ => rfl) rfl rfl fun g => ?_)
    show 0 < total (refersTo g) (s.ptrs ++ [p]) + s.conns.deleters (refersTo g) ↔ _
    rw [useCount_append]
    by_cases hg : p = some g
    · subst hg
      have hpos := useCount_pos_of_mem (List.mem_of_getElem? hp)
      omega
    · rw [refersTo, if_neg hg, Nat.add_zero]
  · cases hstep

/-- The client gives up a copy. An object whose connections are still there stays, as they
have copies too. -/
theorem Inv.resetPtr {i : Nat} (h : s.Inv G) (hstep : s.step G (.resetPtr i) = some t) :
    t.Inv G := by
  simp only [step] at hstep
  split at hstep
  · rename_i p hp
    obtain rfl := Option.some.inj hstep
    have hmem := List.mem_of_getElem? hp
    have hcount : ∀ g, SignalWorld.useCount { s with ptrs := s.ptrs.set i none } g + refersTo g p
        = s.useCount g := by
      intro g
      have hset := total_set (refersTo g) hp none
      rw [refersTo_none, Nat.add_zero] at hset
      show total (refersTo g) (s.ptrs.set i none) + s.conns.deleters (refersTo g) + refersTo g p = _
      rw [useCount, ← hset]
      omega
    have hdrop := dropCopy_onlyPointers hG { s with ptrs := s.ptrs.set i none } p
    refine h.of_onlyPointers
      ⟨hdrop.conns, hdrop.loose, hdrop.missed, hdrop.blocks, hdrop.connected⟩
      (h.counts.dropCopy hG (fun _ => rfl) rfl rfl (fun g hg => ?_) fun g hg => ?_)
    · rw [← hcount g, refersTo, if_neg hg, Nat.add_zero]
    · exact useCount_pos_of_mem (hg ▸ hmem)
  · cases hstep

end Pointers

/-! ## One step: handlers -/

section Handlers

variable {s t : SignalWorld C} {o h : Nat} {x : Nat × Unsubscriber}

/-- A handler stays what it is if it is not disconnected. -/
theorem Matches.of_connected (hm : s.Matches G x) (hblocks : t.blocks = s.blocks)
    (hkept : x.1 ≠ 0 → ∀ o, s.Connected G o x.1 → t.Connected G o x.1) : t.Matches G x := by
  intro hne
  obtain ⟨o, ho, hconnected⟩ := hm hne
  refine ⟨o, ?_, hkept hne o hconnected⟩
  rw [SignalWorld.target] at ho ⊢
  rwa [hblocks]

variable (hG : G.Laws)

include hG

/-- Disconnecting a handler leaves those with other numbers. -/
theorem connected_disconnect (hc : s.Connected G o h) (o' k : Nat) :
    G.isConnected (G.handlerDisconnect s.objects o h) o' k = true ↔
      s.Connected G o' k ∧ k ≠ h := by
  rw [hG.isConnected_handlerDisconnect _ _ _ _ _ (hc.isObject hG)]
  refine and_congr_right fun hk => ?_
  constructor
  · rintro hne rfl
    exact hne (Prod.ext (hG.unique _ _ _ _ hk hc) rfl)
  · rintro hne heq
    exact hne (Prod.mk.inj heq).2

/-- The client disconnects a handler of its own. That no connection holds it is what
`Proper` demands. -/
theorem Inv.disconnect (hs : s.Inv G) (hstep : s.step G (.disconnect o h) = some t)
    (hproper : s.Proper G (.disconnect o h)) : t.Inv G := by
  simp only [step] at hstep
  split at hstep
  · rename_i hobj
    obtain ⟨hloose, hc⟩ := hproper
    obtain rfl := Option.some.inj hstep
    have hconnected := connected_disconnect hG hc
    have hpos : 0 < s.loose.count h := List.count_pos_iff.mpr hloose
    have honce := hs.handled.once h (hc.ne_zero hG)
    refine ⟨hs.counts.of_same (fun k => hG.refCount_handlerDisconnect _ _ _ k hobj) rfl rfl
      fun _ => Iff.rfl, ⟨fun x hx => ?_, fun k hk => ?_, fun o' k hk => ?_, ?_⟩⟩
    · refine (hs.handled.held x hx).of_connected rfl fun _ o' hold => ?_
      refine (hconnected o' x.1).mpr ⟨hold, fun heq => ?_⟩
      have hheld := World.count_held_pos (w := s.conns) hx
      rw [heq] at hheld
      omega
    · exact (Nat.add_le_add_left (List.erase_sublist.count_le k) _).trans (hs.handled.once k hk)
    · obtain ⟨hold, hne⟩ := (hconnected o' k).mp hk
      exact (hs.handled.complete o' k hold).imp_right (List.mem_erase_of_ne hne).mpr
    · exact (if_pos hc).trans hs.handled.none_missed
  · cases hstep

omit hG in
/-- The client has the new handler to disconnect. -/
theorem Inv.handler (hs : s.Inv G) {objects : C} {new : Nat}
    (hrefs : ∀ k, G.refCount objects k = G.refCount s.objects k)
    (hfresh : ∀ k, ¬ s.Connected G k new)
    (hconnected : ∀ k j, G.isConnected objects k j = true ↔
      s.Connected G k j ∨ (k = o ∧ j = new ∧ j ≠ 0)) :
    Inv G { s with
      objects := objects
      loose := if new = 0 then s.loose else new :: s.loose.filter (· ≠ new) } := by
  have hheld : new ≠ 0 → s.conns.heldNumbers.count new = 0 := by
    refine fun hne => Multiset.count_eq_zero.mpr fun hmem => ?_
    obtain ⟨x, hx, rfl⟩ := Multiset.mem_map.mp hmem
    obtain ⟨k, -, hold⟩ := hs.handled.held x hx hne
    exact hfresh k hold
  refine ⟨hs.counts.of_same hrefs rfl rfl fun _ => Iff.rfl,
    ⟨fun x hx => ?_, fun k hk => ?_, fun o' k hk => ?_, hs.handled.none_missed⟩⟩
  · exact (hs.handled.held x hx).of_connected rfl
      fun _ o' hold => (hconnected o' x.1).mpr (.inl hold)
  · have honce := hs.handled.once k hk
    show s.conns.heldNumbers.count k
      + (if new = 0 then s.loose else new :: s.loose.filter (· ≠ new)).count k ≤ 1
    split
    · exact honce
    · by_cases heq : new = k
      · subst heq
        have hgone : (s.loose.filter (· ≠ new)).count new = 0 :=
          List.count_eq_zero.mpr fun hmem => by simp at hmem
        rw [List.count_cons_self, hgone, hheld hk]
      · rw [List.count_cons_of_ne heq]
        exact (Nat.add_le_add_left (List.filter_sublist.count_le k) _).trans honce
  · show k ∈ s.conns.heldNumbers ∨
      k ∈ if new = 0 then s.loose else new :: s.loose.filter (· ≠ new)
    rcases (hconnected o' k).mp hk with hold | ⟨-, rfl, hne⟩
    · refine (hs.handled.complete o' k hold).imp_right fun hloose => ?_
      split
      · exact hloose
      · have hne : k ≠ new := by
          rintro rfl
          exact hfresh o' hold
        exact List.mem_cons_of_mem _ (List.mem_filter.mpr ⟨hloose, decide_eq_true hne⟩)
    · rw [if_neg hne]
      exact .inr List.mem_cons_self

/-- A new handler is the client's to disconnect, until it is handed to a connection. -/
theorem Inv.connect {signal : Text} (hs : s.Inv G)
    (hstep : s.step G (.connect o signal) = some t) : t.Inv G := by
  simp only [step] at hstep
  split at hstep
  · rename_i hobj
    obtain rfl := Option.some.inj hstep
    refine hs.handler (fun k => hG.refCount_signalConnect _ _ _ k hobj) (fun k hold => ?_)
      fun k j => hG.isConnected_signalConnect _ _ _ k j hobj
    rw [Connected, hG.signalConnect_fresh _ _ _ k hobj] at hold
    cases hold
  · cases hstep

end Handlers

/-! ## One step: connections -/

section Connections

variable {s t : SignalWorld C} {op : Op Nat Unsubscriber} {w : World Nat Unsubscriber}
  {c : Option (DeleterCall Nat Unsubscriber)} {objects : C}

/-- `objects` are those of `s`, without the handlers with these numbers. -/
structure Without (G : GSignals C) (s : SignalWorld C) (objects : C) (numbers : Multiset Nat) :
    Prop where
  refCount : ∀ k, G.refCount objects k = G.refCount s.objects k
  connected : ∀ o h, G.isConnected objects o h = true ↔ s.Connected G o h ∧ h ∉ numbers

/-- After an operation on connections, before the copy that it drops is gone. -/
def settled (s : SignalWorld C) (op : Op Nat Unsubscriber) (w : World Nat Unsubscriber)
    (objects : C) : SignalWorld C :=
  { s with conns := w, loose := op.looseAfter s.conns s.loose, objects := objects }

/-- What an operation on connections does, if what it is handed matches: `c` is the call
that it makes, and `objects` is what stays connected. -/
structure Connects (G : GSignals C) (s t : SignalWorld C) (op : Op Nat Unsubscriber)
    (w : World Nat Unsubscriber) (c : Option (DeleterCall Nat Unsubscriber)) (objects : C) :
    Prop where
  applied : ∃ o, s.conns.apply false op = some (w, o)
  calls : w.calls = s.conns.calls ++ c.toList
  without : Without G s objects (World.disposed c)
  result : t = (s.settled op w objects).dropCopy G (op.dropsCopy s.conns).join

/-- Every handler that an operation deals with is one that was held or is handed in. -/
theorem matches_of_mem {o : Outcome Nat} (hs : s.Handled G)
    (hin : ∀ x ∈ op.handsIn s.conns, s.Matches G x)
    (happly : s.conns.apply false op = some (w, o)) (hcalls : w.calls = s.conns.calls ++ c.toList)
    {x : Nat × Unsubscriber} (hx : x ∈ w.heldPairs ∨ x ∈ pendingPair c ∨ x ∈ op.handsOut s.conns) :
    s.Matches G x := by
  have hmem : x ∈ s.conns.heldPairs + (op.handsIn s.conns : Multiset (Nat × Unsubscriber)) := by
    rw [← World.apply_pairs happly hcalls, Multiset.mem_add, Multiset.mem_add, Multiset.mem_coe,
      or_assoc]
    exact hx
  rcases Multiset.mem_add.mp hmem with hheld | hhanded
  · exact hs.held x hheld
  · exact hin x hhanded

section Laws

variable (hG : G.Laws)

include hG

/-- The unsubscriber, called for a handler that matches, disconnects it and nothing else. -/
theorem unsubscribe_matching {c : DeleterCall Nat Unsubscriber} (hm : s.Matches G c.pair) :
    ∃ objects, s.unsubscribe G c = { s with objects := objects } ∧
      Without G s objects {c.resource} := by
  by_cases hzero : c.resource = 0
  · refine ⟨s.objects, ?_, fun _ => rfl, fun o h => ⟨fun hc => ⟨hc, ?_⟩, And.left⟩⟩
    · unfold unsubscribe
      cases s.target c.deleter with
      | none => rfl
      | some o => exact if_neg fun hc => hc.1 hzero
    · rw [hzero, Multiset.mem_singleton]
      exact Connected.ne_zero hG hc
  · obtain ⟨o, ho, hc⟩ := hm hzero
    replace hc : s.Connected G o c.resource := hc
    have hobj := hc.isObject hG
    refine ⟨G.handlerDisconnect s.objects o c.resource, ?_,
      fun k => hG.refCount_handlerDisconnect _ _ _ k hobj, fun o' h => ?_⟩
    · rw [unsubscribe, show s.target c.deleter = some o from ho]
      dsimp only
      rw [if_pos ⟨hzero, hobj⟩, signalHandlerDisconnect, if_pos hc]
    · rw [connected_disconnect hG hc, Multiset.mem_singleton]

/-- The same for the call that an operation makes, if it makes one. -/
theorem unsubscribe_pending (hm : ∀ x ∈ pendingPair c, s.Matches G x) :
    ∃ objects, c.toList.foldl (unsubscribe G) s = { s with objects := objects } ∧
      Without G s objects (World.disposed c) := by
  cases c with
  | none =>
    exact ⟨s.objects, rfl, fun _ => rfl,
      fun o h => by simp [World.disposed, pendingPair, Connected]⟩
  | some c => exact unsubscribe_matching hG (hm c.pair (Multiset.mem_singleton_self _))

theorem connection_cases (hs : s.Inv G) (hin : ∀ x ∈ op.handsIn s.conns, s.Matches G x)
    (h : s.connection G op = some t) : ∃ w c objects, Connects G s t op w c objects := by
  obtain ⟨⟨w, o⟩, happly, rfl⟩ := Option.map_eq_some_iff.mp h
  obtain ⟨-, c, hcalls⟩ := World.apply_effect happly
  have hmatches := fun x => matches_of_mem hs.handled hin happly hcalls (x := x)
  obtain ⟨objects, heq, hwithout⟩ := unsubscribe_pending hG (s := s.settled op w s.objects) (c := c)
    fun x hx => (hmatches x (.inr (.inl hx))).of_connected rfl fun _ _ hold => hold
  refine ⟨w, c, objects, ⟨⟨o, happly⟩, hcalls, ⟨hwithout.refCount, hwithout.connected⟩, ?_⟩⟩
  dsimp only
  rw [World.callsSince_eq hcalls]
  exact congrArg (fun u => u.dropCopy G (op.dropsCopy s.conns).join) heq

end Laws

/-- The deleter of an object is a copy of a pointer. -/
theorem deleter_le_useCount (s : SignalWorld C) (i g : Nat) :
    ((s.conns.get i).map ResourcePtr.delete_).elim 0 (refersTo g) ≤ s.useCount g := by
  cases hi : s.conns.get i with
  | none => exact Nat.zero_le _
  | some p => exact (World.le_deleters_of_get (refersTo g) hi).trans (Nat.le_add_left _ _)

/-- An unsubscriber with a live pointer is one of its copies. -/
theorem refersTo_le_useCount {d : Unsubscriber} (hd : ∀ g ∈ d, 0 < s.useCount g) (g : Nat) :
    refersTo g d ≤ s.useCount g := by
  unfold refersTo
  split
  · exact hd g ‹_›
  · exact Nat.zero_le _

/-- Of what an operation copies or drops there is a copy before. -/
theorem takesCopy_le (hhas : s.HasUnsubscriber op) (g : Nat) :
    (op.takesCopy s.conns).elim 0 (refersTo g) ≤ s.useCount g := by
  cases op with
  | default stored d =>
    obtain rfl : d = none := hhas
    exact Nat.zero_le _
  | ofDeleter stored d | ofResource stored d => exact refersTo_le_useCount hhas g
  | moveConstruct r moved | moveAssign this r moved => exact s.deleter_le_useCount r g
  | _ => exact Nat.zero_le _

/-- The copy that an operation gives up was there. -/
theorem dropsCopy_le (s : SignalWorld C) (op : Op Nat Unsubscriber) (g : Nat) :
    (op.dropsCopy s.conns).elim 0 (refersTo g) ≤ s.useCount g := by
  cases op with
  | moveAssign this r moved | destroy this => exact s.deleter_le_useCount this g
  | _ => exact Nat.zero_le _

/-- The reference counts stay right. -/
theorem Connects.inHand (hc : Connects G s t op w c objects) (hG : G.Laws) (hs : s.InHand G none)
    (hhas : s.HasUnsubscriber op) : t.InHand G none := by
  obtain ⟨o, happly⟩ := hc.applied
  have hcount : ∀ g, (s.settled op w objects).useCount g
        + refersTo g (op.dropsCopy s.conns).join
      = s.useCount g + (op.takesCopy s.conns).elim 0 (refersTo g) := by
    intro g
    have hcopies := (World.apply_effect happly).copies (refersTo g)
    have helim : (op.dropsCopy s.conns).elim 0 (refersTo g)
        = refersTo g (op.dropsCopy s.conns).join := by
      cases op.dropsCopy s.conns <;> rfl
    rw [helim] at hcopies
    show total (refersTo g) s.ptrs + w.deleters (refersTo g) + _ = _
    rw [useCount]
    omega
  rw [hc.result]
  refine hs.dropCopy hG hc.without.refCount rfl rfl (fun g hg => ?_) fun g hg => ?_
  · have htakes := takesCopy_le hhas g
    have hbalance := hcount g
    rw [refersTo, if_neg hg] at hbalance
    omega
  · have hdrops := s.dropsCopy_le op g
    rw [Option.join_eq_some_iff.mp hg, Option.elim_some, refersTo_self] at hdrops
    exact hdrops

/-- Handlers are disconnected as they should be, when the operation is handed proper ones. -/
theorem Connects.handled (hc : Connects G s t op w c objects) (hG : G.Laws) (hs : s.Inv G)
    (hproper : s.Proper G (.connection op)) : (s.settled op w objects).Handled G := by
  obtain ⟨o, happly⟩ := hc.applied
  -- what is held, loose or disposed of was held or loose, once
  have hcustody : ∀ k, k ≠ 0 → w.heldNumbers.count k
        + (op.looseAfter s.conns s.loose).count k + (World.disposed c).count k
      = s.conns.heldNumbers.count k + s.loose.count k := by
    refine fun k hk => World.custody_count happly hc.calls (fun j hj hne => ?_) hk
    obtain ⟨x, hx, rfl⟩ := List.mem_map.mp hj
    exact (hproper x hx).2 hne
  refine ⟨fun x hx => ?_, fun k hk => ?_, fun o k hk => ?_, hs.handled.none_missed⟩
  · have hold := matches_of_mem hs.handled (fun x hx => (hproper x hx).1) happly hc.calls (.inl hx)
    refine hold.of_connected rfl fun hne o hconnected => ?_
    refine (hc.without.connected o x.1).mpr ⟨hconnected, fun hdisposed => ?_⟩
    have hpos : 0 < (World.disposed c).count x.1 := Multiset.count_pos.mpr hdisposed
    have hheld : 0 < w.heldNumbers.count x.1 := World.count_held_pos hx
    have honce := hs.handled.once x.1 hne
    have hbalance := hcustody x.1 hne
    omega
  · have honce := hs.handled.once k hk
    have hbalance := hcustody k hk
    show w.heldNumbers.count k + (op.looseAfter s.conns s.loose).count k ≤ 1
    omega
  · obtain ⟨hold, hkept⟩ := (hc.without.connected o k).mp hk
    have hbalance := hcustody k (hold.ne_zero hG)
    have hzero : (World.disposed c).count k = 0 := Multiset.count_eq_zero.mpr hkept
    show k ∈ w.heldNumbers ∨ k ∈ op.looseAfter s.conns s.loose
    rw [← Multiset.count_pos, ← List.count_pos_iff]
    rcases hs.handled.complete o k hold with hheld | hloose
    · have hpos := Multiset.count_pos.mpr hheld
      omega
    · have hpos : 0 < s.loose.count k := List.count_pos_iff.mpr hloose
      omega

/-- An operation on connections keeps what is promised. It is put together from what
happens to the handlers, to the copies and to the references. -/
theorem Inv.connection (hG : G.Laws) (hs : s.Inv G) (hstep : s.step G (.connection op) = some t)
    (hproper : s.Proper G (.connection op)) : t.Inv G := by
  simp only [step] at hstep
  split at hstep
  · rename_i hhas
    obtain ⟨w, c, objects, hc⟩ := connection_cases hG hs (fun x hx => (hproper x hx).1) hstep
    have ht := hc.inHand hG hs.counts hhas
    have hst := dropCopy_onlyPointers hG (s.settled op w objects) (op.dropsCopy s.conns).join
    rw [← hc.result] at hst
    exact ⟨ht, (hc.handled hG hs hproper).of_onlyPointers hst ht⟩
  · cases hstep

end Connections

/-! ## Exactness -/

section Exactness

variable {s t : SignalWorld C} {op : Op Nat Unsubscriber}

/-- What C code gives away without having it, it is no owner of before or after. -/
theorem owners_erase_of_notMem {o : Nat} (ho : o ∉ s.cRefs) (k : Nat) :
    SignalWorld.owners { s with cRefs := s.cRefs.erase o } k = s.owners k := by
  show (s.cRefs.erase o).count k + (s.liveBlocks k).card = _
  rw [List.erase_of_not_mem ho, owners]

variable (hG : G.Laws)

include hG

/-- C code that releases a reference of others leaves fewer references than owners. -/
theorem Inv.proper_unref {o : Nat} (hs : s.Inv G) (hstep : s.step G (.unref o) = some t)
    (ht : t.Managed G) : o ∈ s.cRefs := by
  by_contra ho
  simp only [step] at hstep
  split at hstep
  · rename_i hobj
    obtain rfl := Option.some.inj hstep
    have hcounted : G.refCount (G.objectUnref s.objects o) o = s.owners o :=
      (ht.counted o).trans (owners_erase_of_notMem ho o)
    rw [hG.refCount_objectUnref _ _ _ hobj, refersTo_self, ← hs.managed.counted] at hcounted
    unfold IsObject at hobj
    omega
  · cases hstep

omit hG in
/-- And so it does if it hands over a reference that it has not got. -/
theorem Inv.proper_shareGobject {o : Nat} (hs : s.Inv G)
    (hstep : s.step G (.shareGobject o) = some t) (ht : t.Managed G) : o ∈ s.cRefs := by
  by_contra ho
  simp only [step] at hstep
  split at hstep
  · obtain rfl := Option.some.inj hstep
    have hcounted := ht.counted o
    have hcard := card_liveBlocks_share { s with cRefs := s.cRefs.erase o } o o
    rw [refersTo_self] at hcard
    have howners := owners_erase_of_notMem ho o
    have hold := hs.managed.counted o
    simp only [owners, SignalWorld.shareGobject] at hcounted hcard howners hold
    omega
  · cases hstep

/-- If the client disconnects what is not its own, then GLib prints a warning, or a
connection is left with the number. -/
theorem Inv.proper_disconnect {o h : Nat} (hs : s.Inv G)
    (hstep : s.step G (.disconnect o h) = some t) (ht : t.Managed G) :
    h ∈ s.loose ∧ s.Connected G o h := by
  simp only [step] at hstep
  split at hstep
  · obtain rfl := Option.some.inj hstep
    have hc : s.Connected G o h := by
      by_contra hnot
      have hmissed : ((o, h) :: s.missed : List (Nat × Nat)) = [] :=
        (if_neg hnot).symm.trans ht.none_missed
      cases hmissed
    refine ⟨(hs.handled.complete o h hc).resolve_left fun hheld => ?_, hc⟩
    obtain ⟨x, hx, rfl⟩ := Multiset.mem_map.mp hheld
    obtain ⟨o', -, hconnected⟩ := ht.held x hx (hc.ne_zero hG)
    exact ((connected_disconnect hG hc o' x.1).mp hconnected).2 rfl
  · cases hstep

/-- The unsubscriber connects nothing. -/
theorem unsubscribe_frame (s : SignalWorld C) (c : DeleterCall Nat Unsubscriber) :
    ∃ objects missed, s.unsubscribe G c = { s with objects := objects, missed := missed } ∧
      ∀ o h, G.isConnected objects o h = true → s.Connected G o h := by
  unfold unsubscribe
  split
  · split
    · rename_i hc
      exact ⟨_, _, rfl, fun o h hk => ((hG.isConnected_handlerDisconnect _ _ _ _ _ hc.2).mp hk).1⟩
    · exact ⟨_, _, rfl, fun _ _ hk => hk⟩
  · exact ⟨_, _, rfl, fun _ _ hk => hk⟩

/-- Whatever was handed in, it is held afterwards, and what matches then matched before. -/
theorem matches_of_connection (h : s.connection G op = some t) {x : Nat × Unsubscriber}
    (hx : x ∈ op.handsIn s.conns) :
    x ∈ t.conns.heldPairs ∧ (t.Matches G x → s.Matches G x) := by
  obtain ⟨⟨w, o⟩, happly, rfl⟩ := Option.map_eq_some_iff.mp h
  obtain ⟨-, c, hcalls⟩ := World.apply_effect happly
  dsimp only
  rw [World.callsSince_eq hcalls]
  obtain ⟨objects, missed, heq, hframe⟩ : ∃ objects missed,
      c.toList.foldl (unsubscribe G) (s.settled op w s.objects)
        = { s.settled op w objects with missed := missed } ∧
      ∀ o h, G.isConnected objects o h = true → s.Connected G o h := by
    cases c with
    | none => exact ⟨_, _, rfl, fun _ _ hk => hk⟩
    | some c => exact unsubscribe_frame hG _ c
  have hdrop := dropCopy_onlyPointers hG { s.settled op w objects with missed := missed }
    (op.dropsCopy s.conns).join
  change x ∈ ((c.toList.foldl (unsubscribe G) (s.settled op w s.objects)).dropCopy G
      _).conns.heldPairs ∧
    (Matches G ((c.toList.foldl (unsubscribe G) (s.settled op w s.objects)).dropCopy G _) x → _)
  rw [heq]
  refine ⟨hdrop.conns ▸ World.mem_heldPairs_of_handsIn happly hx, fun hm hne => ?_⟩
  obtain ⟨o, ho, hconnected⟩ := hm hne
  refine ⟨o, ?_, hframe o x.1 ((hdrop.connected o x.1).mp hconnected).1⟩
  obtain ⟨objects', hdropped, -⟩ :=
    dropCopy_eq hG { s.settled op w objects with missed := missed } (op.dropsCopy s.conns).join
  rw [hdropped] at ho
  exact ho

/-- If all is well afterwards, then what was handed in was proper. -/
theorem Inv.proper_connection (hs : s.Inv G) (hstep : s.step G (.connection op) = some t)
    (ht : t.Managed G) : s.Proper G (.connection op) := by
  simp only [step] at hstep
  split at hstep
  · have hin : ∀ x ∈ op.handsIn s.conns, s.Matches G x := by
      intro x hx
      obtain ⟨hheld, hmatches⟩ := matches_of_connection hG hstep hx
      exact hmatches (ht.held x hheld)
    obtain ⟨w, c, objects, hc⟩ := connection_cases hG hs hin hstep
    obtain ⟨o, happly⟩ := hc.applied
    have hst := dropCopy_onlyPointers hG (s.settled op w objects) (op.dropsCopy s.conns).join
    rw [← hc.result] at hst
    have hconns : t.conns = w := hst.conns
    have hloose : t.loose = op.looseAfter s.conns s.loose := hst.loose
    intro x hx
    refine ⟨hin x hx, fun hne => ?_⟩
    obtain ⟨o, -, hconnected⟩ := hin x hx hne
    rcases hs.handled.complete o x.1 hconnected with hheld | hloose'
    · -- the handler would be held twice, or is disconnected already
      have hheld' : x ∈ t.conns.heldPairs := (matches_of_connection hG hstep hx).1
      have hw := World.count_held_pos hheld'
      have honce := ht.once x.1 hne
      rw [hconns] at hw honce
      rw [hloose, World.count_looseAfter s.conns s.loose op hne] at honce
      have hkept : (World.disposed c).count x.1 = 0 := by
        obtain ⟨o', -, hstays⟩ := ht.held x hheld' hne
        have hsettled := ((hst.connected o' x.1).mp hstays).1
        exact Multiset.count_eq_zero.mpr ((hc.without.connected o' x.1).mp hsettled).2
      have hcount := World.count_numbers happly hc.calls x.1
      have hpos := Multiset.count_pos.mpr hheld
      have hgiven : 0 < (op.given s.conns).count x.1 :=
        List.count_pos_iff.mpr (List.mem_map_of_mem hx)
      omega
    · exact hloose'
  · cases hstep

end Exactness

/-! ## Runs -/

section Runs

theorem inv_initial {c : C} (hG : G.Laws) (hc : ∀ o, G.refCount c o = 0) : (initial c).Inv G := by
  refine ⟨⟨hc, fun g hg => absurd hg (Nat.lt_irrefl 0)⟩,
    ⟨fun x hx => ?_, fun k _ => Nat.zero_le 1, fun o k hk => ?_, rfl⟩⟩
  · cases hx
  · have hobj : 0 < G.refCount c o := Connected.isObject hG hk
    rw [hc] at hobj
    exact absurd hobj (Nat.lt_irrefl 0)

variable (hG : G.Laws)

include hG

/-- One step keeps what is promised, if it is proper. -/
theorem Inv.step {s t : SignalWorld C} {op : SignalOp} (hs : s.Inv G) (h : s.step G op = some t)
    (hproper : s.Proper G op) : t.Inv G := by
  cases op with
  | newObject => exact hs.newObject hG h
  | ref o => exact hs.ref hG h
  | unref o => exact hs.unref hG h hproper
  | shareGobject o => exact hs.shareGobject hG h hproper
  | copyPtr i => exact hs.copyPtr hG h
  | resetPtr i => exact hs.resetPtr hG h
  | connect o signal => exact hs.connect hG h
  | disconnect o k => exact hs.disconnect hG h hproper
  | connection op => exact hs.connection hG h hproper

/-- **Connections manage their handlers** in a run exactly if every handler that is handed
to a connection is one of its unsubscriber's object, and the client's to hand over; if the
client disconnects handlers of its own only; and if C code gives away references of its
own only. -/
theorem managed_iff {c : C} (hc : ∀ o, G.refCount c o = 0) (ops : List SignalOp) :
    Always (step G) (Managed G) (initial c) ops ↔ Meets (step G) (Proper G) (initial c) ops := by
  refine always_iff_meets (fun s op t hs h hproper => hs.step hG h hproper)
    (fun s hs => hs.managed) (fun s op t hs h ht => ?_) (inv_initial hG hc)
  cases op with
  | unref o => exact hs.proper_unref hG h ht
  | shareGobject o => exact hs.proper_shareGobject h ht
  | disconnect o k => exact hs.proper_disconnect hG h ht
  | connection op => exact hs.proper_connection hG h ht
  | _ => trivial

omit hG in
/-- The client drops its pointer to the object before the connection goes, and all is well;
but not if it disconnects the handler that the connection holds. -/
theorem managed_iff_notify :
    Always (step countingSignals) (Managed countingSignals) (initial .empty)
        [.newObject, .shareGobject 0, .connect 0 "notify::name",
          gobjectSignalConnection 1 (some 0), .resetPtr 0, .connection (.destroy 0)] ∧
      ¬ Always (step countingSignals) (Managed countingSignals) (initial .empty)
        [.newObject, .shareGobject 0, .connect 0 "notify::name",
          gobjectSignalConnection 1 (some 0), .disconnect 0 1] :=
  ⟨(managed_iff countingSignals_laws (fun _ => rfl) _).mpr (by decide),
    fun h => absurd ((managed_iff countingSignals_laws (fun _ => rfl) _).mp h) (by decide)⟩

end Runs

end SignalWorld

end LomiriApi
