import LomiriApi.ResourcePtr.Conservation
import LomiriApi.ResourcePtr.Transfer

/-!
# `ResourcePtr`: the exception safety of transfers

- `Safe w w' t o`: what a transfer between two objects must leave behind, also if a
  user-supplied operation throws.
- `Harmless w throws t`: the four exits at which a transfer has already changed one
  member but not yet another are not taken, or there is nothing to lose at them. They are
  the copy of the deleter in the move constructor and in the move assignment, the swap of
  the deleters, and, in the move assignment, the copy of the resource that becomes the
  argument of the deleter.
- `transfer_accounted`: a harmless transfer loses nothing.
- `transfer_safe_iff`: in every state that operations and harmless transfers lead to, a
  transfer is safe exactly when it is harmless.
-/

namespace LomiriApi

open Lib

variable {R D : Type}

/-! ## What a transfer must keep -/

/-- No resource is in both. Two objects never hold the same resource, and this is what
makes "held by exactly one of them" mean something after they were mixed up. -/
def Apart (P Q : Multiset (R × D)) : Prop := ∀ a d d', (a, d) ∈ P → (a, d') ∉ Q

/-- The pairs `P` and `Q` of two objects have become `P'` and `Q'`: what was not disposed
of (`C`) is held by one of the two, with its deleter, and not by the other. The deleters in
the second half are arbitrary: a resource that is held twice is held twice whatever its
second deleter is. -/
def KeepsPairs (P Q P' Q' : Multiset (R × D)) (C : List (R × D)) : Prop :=
  ∀ x, x ∈ P ∨ x ∈ Q → x ∉ C →
    (x ∈ P' ∧ ∀ d, (x.1, d) ∉ Q') ∨ (x ∈ Q' ∧ ∀ d, (x.1, d) ∉ P')

/-- What can be seen of an object: the value left behind in an object without a resource is
not. -/
def ResourcePtr.seen (p : ResourcePtr R D) : Option R × D := (p.held, p.getDeleter)

/-- A transfer that is documented to leave the objects alone if it throws. For `operator=`
the source has a TODO instead. -/
def Transfer.strong : Transfer R → Bool
  | .moveAssign _ _ _ => false
  | _ => true

namespace World

/-- What the object at an address holds, with its deleter; nothing where there is no
object. -/
def pairAt (w : World R D) (i : Nat) : Multiset (R × D) := slotPair (w.get i)

/-- What deleters have been called with between `w` and `w'`. A deleter that was called and
threw counts: the resource was passed to it. -/
def deletedSince (w w' : World R D) : List (R × D) :=
  (w'.calls.drop w.calls.length).map DeleterCall.pair

/-- The addresses of the two objects; the one that is to be constructed is the next. -/
def objectsOf (w : World R D) : Transfer R → Nat × Nat
  | .moveConstruct r _ => (r, w.objs.length)
  | .moveAssign this r _ => (this, r)
  | .swap this other => (this, other)
  | .freeSwap lhs rhs => (lhs, rhs)

/-- `has_resource()`, the resource and the deleter of all objects are as before. -/
def Unchanged (w w' : World R D) : Prop :=
  ∀ k, (w'.get k).map ResourcePtr.seen = (w.get k).map ResourcePtr.seen

/-- The transfer `t` from `w` to `w'`, which came back with `o`, is safe. -/
structure Safe (w w' : World R D) (t : Transfer R) (o : TransferOutcome) : Prop where
  keeps : KeepsPairs (w.pairAt (w.objectsOf t).1) (w.pairAt (w.objectsOf t).2)
    (w'.pairAt (w.objectsOf t).1) (w'.pairAt (w.objectsOf t).2) (deletedSince w w')
  unchanged : t.strong = true → (∃ op, o = .threw op) → Unchanged w w'

/-- No exit is taken between two members of which one has changed, or it does not
matter there. The exits are listed in the order in which the code comes to them: one
that is taken earlier keeps it from those that follow. -/
def Harmless (w : World R D) (throws : UserOp → Bool) : Transfer R → Prop
  | .moveConstruct r moved => ∀ q, w.get r = some q →
      throws .moveResource = true ∨ throws .copyDeleter = false ∨
        q.hasResource = false ∨ moved = q.resource_
  | .moveAssign this r _ => ∀ p q, w.get this = some p → w.get r = some q →
      (p.hasResource && throws .copyArgument) = false ∧
        ((p.hasResource && throws .callDeleter) = true ∨ throws .moveResource = true ∨
          throws .copyDeleter = false ∨ q.hasResource = false ∨ p.delete_ = q.delete_)
  | .swap this other | .freeSwap this other => ∀ p q, w.get this = some p →
      w.get other = some q →
      throws .swapResource = true ∨ throws .swapDeleter = false ∨
        (p.hasResource = false ∧ q.hasResource = false) ∨ p.resource_ = q.resource_

end World

/-! ## Pairs -/

/-- Which of the two objects comes first does not matter. -/
theorem Apart.symm {P Q : Multiset (R × D)} (h : Apart P Q) : Apart Q P :=
  fun a d d' hQ hP => h a d' d hP hQ

theorem apart_zero (P : Multiset (R × D)) : Apart P 0 := fun _ _ _ _ => Multiset.notMem_zero _

/-- Nothing has changed. -/
theorem KeepsPairs.same {P Q : Multiset (R × D)} (h : Apart P Q) (C : List (R × D)) :
    KeepsPairs P Q P Q C := by
  rintro ⟨a, d⟩ (hP | hQ) -
  · exact .inl ⟨hP, fun d' => h a d d' hP⟩
  · exact .inr ⟨hQ, fun d' => h.symm a d d' hQ⟩

/-- The objects have exchanged what they held. -/
theorem KeepsPairs.exchanged {P Q : Multiset (R × D)} (h : Apart P Q) (C : List (R × D)) :
    KeepsPairs P Q Q P C := by
  rintro ⟨a, d⟩ (hP | hQ) -
  · exact .inr ⟨hP, fun d' => h a d d' hP⟩
  · exact .inl ⟨hQ, fun d' => h.symm a d d' hQ⟩

/-- The first object has disposed of its pair. -/
theorem KeepsPairs.disposed {P : Multiset (R × D)} (Q : Multiset (R × D)) {C : List (R × D)}
    (h : ∀ x ∈ P, x ∈ C) : KeepsPairs P Q 0 Q C := by
  rintro x (hP | hQ) hC
  · exact absurd (h x hP) hC
  · exact .inr ⟨hQ, fun d => Multiset.notMem_zero _⟩

/-- And then it has taken over the pair of the second. -/
theorem KeepsPairs.replaced {P : Multiset (R × D)} (Q : Multiset (R × D)) {C : List (R × D)}
    (h : ∀ x ∈ P, x ∈ C) : KeepsPairs P Q Q 0 C := by
  rintro x (hP | hQ) hC
  · exact absurd (h x hP) hC
  · exact .inl ⟨hQ, fun d => Multiset.notMem_zero _⟩

/-- The pair of an object is the one it holds, if it holds one. -/
theorem ResourcePtr.mem_pair {p : ResourcePtr R D} {x : R × D} :
    x ∈ p.pair ↔ p.hasResource = true ∧ x = (p.resource_, p.delete_) := by
  obtain ⟨r, d, b⟩ := p
  cases b with
  | false => simp [hasResource]
  | true => simp [hasResource]

/-- An object that has no resource has no pair, whatever value is left in it. -/
theorem ResourcePtr.pair_of_not_hasResource {p : ResourcePtr R D} (h : p.hasResource = false) :
    p.pair = 0 := by
  obtain ⟨r, d, b⟩ := p
  obtain rfl : b = false := h
  rfl

/-- Objects that look the same hold the same. -/
theorem ResourcePtr.pair_eq_of_seen {p q : ResourcePtr R D} (h : p.seen = q.seen) :
    p.pair = q.pair := by
  obtain ⟨hheld, hdelete⟩ := Prod.mk.inj h
  obtain ⟨r, d, b⟩ := p
  obtain ⟨r', d', b'⟩ := q
  obtain rfl : d = d' := hdelete
  cases b with
  | false =>
    cases b' with
    | false => rfl
    | true => cases hheld
  | true =>
    cases b' with
    | false => cases hheld
    | true =>
      obtain rfl : r = r' := Option.some.inj hheld
      rfl

/-- Another resource is not seen where none is held. -/
theorem ResourcePtr.seen_resource (p : ResourcePtr R D) (r : R) :
    (⟨r, p.delete_, p.initialized_⟩ : ResourcePtr R D).seen = p.seen ↔
      p.hasResource = false ∨ r = p.resource_ := by
  obtain ⟨r', d, b⟩ := p
  cases b with
  | false => simp [seen, held, hasResource, getDeleter]
  | true => simp [seen, held, hasResource, getDeleter]

/-- A pending call is about to dispose of the pair that it is made with. -/
theorem mem_pendingPair {c : Option (DeleterCall R D)} {x : R × D} :
    x ∈ pendingPair c ↔ x ∈ c.toList.map DeleterCall.pair := by
  cases c with
  | none => simp [pendingPair]
  | some c => simp [pendingPair]

namespace World

/-- What one call disposes of, if the objects alone have changed before it. -/
theorem deletedSince_call (w w' : World R D) (hw : w'.calls = w.calls)
    (c : Option (DeleterCall R D)) :
    deletedSince w (w'.call c) = c.toList.map DeleterCall.pair := by
  rw [deletedSince, call_calls, hw, List.drop_left]

/-- What is pending is the pair that the object held. -/
theorem mem_deletedSince {w w' : World R D} (hw : w'.calls = w.calls) {p : ResourcePtr R D}
    {x : R × D} (hx : x ∈ p.pair) : x ∈ deletedSince w (w'.call p.dealloc.2) := by
  rw [deletedSince_call w w' hw, ← mem_pendingPair, p.dealloc_pending]
  exact hx

theorem call_none (w : World R D) : w.call none = w := by
  obtain ⟨objs, calls⟩ := w
  simp [call]

/-- What is found at an address is what the object there holds. -/
theorem pairAt_of_get {w : World R D} {i : Nat} {p : ResourcePtr R D} (h : w.get i = some p) :
    w.pairAt i = p.pair := by
  rw [pairAt, h]
  rfl

/-- At the next address there is nothing yet: that is what the new object of a move
construction "held" before. -/
theorem pairAt_new (w : World R D) : w.pairAt w.objs.length = 0 := by
  rw [pairAt, get, List.getElem?_eq_none (Nat.le_refl _)]
  rfl

theorem unchanged_refl (w : World R D) : Unchanged w w := fun _ => rfl

/-- Writing one object changes nothing exactly if it looks as before. -/
theorem unchanged_put {w : World R D} {i : Nat} {p q : ResourcePtr R D} (h : w.get i = some p) :
    Unchanged w (w.put i q) ↔ q.seen = p.seen := by
  constructor
  · intro hun
    have hi := hun i
    rw [get_put_self h, h] at hi
    exact Option.some.inj hi
  · intro hseen k
    by_cases hk : i = k
    · subst hk
      rw [get_put_self h, h, Option.map_some, hseen, Option.map_some]
    · rw [get_put_ne w hk]

/-- A new object is found at the next address. -/
theorem get_construct_new (w : World R D) (p : ResourcePtr R D) :
    (w.construct p).get w.objs.length = some p := by
  simp [construct, get]

theorem get_construct_old {w : World R D} {i : Nat} {p : ResourcePtr R D} (h : w.get i = some p)
    (q : ResourcePtr R D) : (w.construct q).get i = some p := by
  have hlt : i < w.objs.length := (List.getElem?_eq_some_iff.mp (get_eq_some.mp h)).1
  rw [get_eq_some, construct, List.getElem?_append_left hlt]
  exact get_eq_some.mp h

/-- Writing two objects changes nothing exactly if each looks as before; the addresses must
differ, or the second would hide the first. -/
theorem unchanged_put_put {w : World R D} {i j : Nat} {p q a b : ResourcePtr R D}
    (hi : w.get i = some p) (hj : w.get j = some q) (hij : i ≠ j) :
    Unchanged w ((w.put i a).put j b) ↔ a.seen = p.seen ∧ b.seen = q.seen := by
  have hgeti : ((w.put i a).put j b).get i = some a :=
    (get_put_ne _ hij.symm b).trans (get_put_self hi a)
  have hgetj : ((w.put i a).put j b).get j = some b :=
    get_put_self ((get_put_ne w hij a).trans hj) b
  constructor
  · intro hun
    have hi' := hun i
    have hj' := hun j
    rw [hgeti, hi] at hi'
    rw [hgetj, hj] at hj'
    exact ⟨Option.some.inj hi', Option.some.inj hj'⟩
  · rintro ⟨ha, hb⟩ k
    by_cases hki : k = i
    · rw [hki, hgeti, hi, Option.map_some, ha, Option.map_some]
    · by_cases hkj : k = j
      · rw [hkj, hgetj, hj, Option.map_some, hb, Option.map_some]
      · rw [get_put_ne _ (Ne.symm hkj), get_put_ne w (Ne.symm hki)]

/-! ## Move construction -/

/-- The copy of the deleter threw: `r` has kept the flag, but not the resource. -/
theorem moveConstruct_threw_safe_iff {w : World R D} {r : Nat} {q : ResourcePtr R D} {moved : R}
    (hq : w.get r = some q) :
    Safe w (w.put r ⟨moved, q.delete_, q.initialized_⟩) (.moveConstruct r moved)
      (.threw .copyDeleter) ↔ q.hasResource = false ∨ moved = q.resource_ := by
  rw [← q.seen_resource moved, ← unchanged_put hq]
  constructor
  · exact fun hsafe => hsafe.unchanged rfl ⟨_, rfl⟩
  · refine fun hun => ⟨?_, fun _ _ => hun⟩
    have hpair : (w.put r ⟨moved, q.delete_, q.initialized_⟩).pairAt r = w.pairAt r := by
      rw [pairAt_of_get (get_put_self hq _), pairAt_of_get hq]
      exact ResourcePtr.pair_eq_of_seen ((unchanged_put hq).mp hun)
    have hnew : (w.put r ⟨moved, q.delete_, q.initialized_⟩).pairAt w.objs.length = 0 := by
      have := pairAt_new (w.put r ⟨moved, q.delete_, q.initialized_⟩)
      rwa [put_objs, List.length_set] at this
    show KeepsPairs (w.pairAt r) (w.pairAt w.objs.length) (pairAt _ r)
      (pairAt _ w.objs.length) _
    rw [hpair, hnew, pairAt_new]
    exact .same (apart_zero _) _

/-- The move constructor returned: the new object has what `r` held. -/
theorem moveConstruct_returned_safe {w : World R D} {r : Nat} {q : ResourcePtr R D} {moved : R}
    (hq : w.get r = some q) :
    Safe w ((w.put r ⟨moved, q.delete_, false⟩).construct q) (.moveConstruct r moved)
      .returned := by
  refine ⟨?_, fun _ ⟨op, hop⟩ => nomatch hop⟩
  have hr : ((w.put r ⟨moved, q.delete_, false⟩).construct q).pairAt r = 0 :=
    pairAt_of_get (get_construct_old (get_put_self hq _) q)
  have hnew : ((w.put r ⟨moved, q.delete_, false⟩).construct q).pairAt w.objs.length =
      q.pair := by
    have := get_construct_new (w.put r ⟨moved, q.delete_, false⟩) q
    rw [put_objs, List.length_set] at this
    exact pairAt_of_get this
  show KeepsPairs (w.pairAt r) (w.pairAt w.objs.length) (pairAt _ r) (pairAt _ w.objs.length) _
  rw [hr, hnew, pairAt_new, pairAt_of_get hq]
  exact .exchanged (apart_zero _) _

/-- An exit is taken, or the code goes on. The transfers are chains of such choices, so
their case lemmas are made from this one, exit by exit. -/
theorem exit_cases {α : Type} {taken : Bool} {a b r : α}
    (h : (if taken then a else b) = r) : taken = true ∧ r = a ∨ taken = false ∧ b = r := by
  cases taken with
  | true => exact .inl ⟨rfl, h.symm⟩
  | false => exact .inr ⟨rfl, h⟩

/-- The exits, in the order of the code. -/
theorem moveConstruct_exits {w w' : World R D} {r : Nat} {q : ResourcePtr R D} {moved : R}
    {throws : UserOp → Bool} {o : TransferOutcome} (hq : w.get r = some q)
    (h : w.moveConstructThrowing r moved throws = some (w', o)) :
    (throws .moveResource = true ∧ w' = w ∧ o = .threw .moveResource) ∨
    (throws .moveResource = false ∧ throws .copyDeleter = true ∧
      w' = w.put r ⟨moved, q.delete_, q.initialized_⟩ ∧ o = .threw .copyDeleter) ∨
    (throws .moveResource = false ∧ throws .copyDeleter = false ∧
      w' = (w.put r ⟨moved, q.delete_, false⟩).construct q ∧ o = .returned) := by
  rw [moveConstructThrowing_eq hq] at h
  rcases exit_cases (Option.some.inj h) with ⟨hresource, heq⟩ | ⟨hresource, hrest⟩
  · exact .inl ⟨hresource, Prod.mk.inj heq⟩
  · rcases exit_cases hrest with ⟨hcopy, heq⟩ | ⟨hcopy, heq⟩
    · exact .inr (.inl ⟨hresource, hcopy, Prod.mk.inj heq⟩)
    · exact .inr (.inr ⟨hresource, hcopy, Prod.mk.inj heq.symm⟩)

/-- The condition, where the object is known. -/
theorem harmless_moveConstruct_iff {w : World R D} {r : Nat} {q : ResourcePtr R D}
    (hq : w.get r = some q) (moved : R) (throws : UserOp → Bool) :
    Harmless w throws (.moveConstruct r moved) ↔
      throws .moveResource = true ∨ throws .copyDeleter = false ∨
        q.hasResource = false ∨ moved = q.resource_ := by
  simp [Harmless, hq]

/-- Of the three exits only the second is not safe by itself, and there the condition says
when it is. -/
theorem moveConstruct_safe_iff {w w' : World R D} {r : Nat} {q : ResourcePtr R D} {moved : R}
    {throws : UserOp → Bool} {o : TransferOutcome} (hq : w.get r = some q)
    (h : w.moveConstructThrowing r moved throws = some (w', o)) :
    Safe w w' (.moveConstruct r moved) o ↔ Harmless w throws (.moveConstruct r moved) := by
  rw [harmless_moveConstruct_iff hq]
  rcases moveConstruct_exits hq h with
    ⟨hresource, rfl, rfl⟩ | ⟨hresource, hcopy, rfl, rfl⟩ | ⟨hresource, hcopy, rfl, rfl⟩
  · refine iff_of_true ⟨?_, fun _ _ => unchanged_refl w'⟩ (.inl hresource)
    show KeepsPairs (w'.pairAt r) (w'.pairAt w'.objs.length) _ (w'.pairAt w'.objs.length) _
    rw [pairAt_new]
    exact .same (apart_zero _) _
  · rw [moveConstruct_threw_safe_iff hq]
    simp only [hresource, hcopy, false_or, reduceCtorEq]
  · exact iff_of_true (moveConstruct_returned_safe hq) (.inr (.inl hcopy))

/-! ## Move assignment -/

section Pairwise

variable {w : World R D} {i j : Nat} {p q : ResourcePtr R D}

/-- After both objects were written, and a deleter was called. -/
theorem keeps_put_put_call (hi : w.get i = some p) (hj : w.get j = some q) (hij : i ≠ j)
    (a b : ResourcePtr R D) (c : Option (DeleterCall R D)) :
    KeepsPairs (w.pairAt i) (w.pairAt j) ((((w.put i a).put j b).call c).pairAt i)
        ((((w.put i a).put j b).call c).pairAt j)
        (deletedSince w (((w.put i a).put j b).call c)) ↔
      KeepsPairs p.pair q.pair a.pair b.pair (c.toList.map DeleterCall.pair) := by
  have hthis : (((w.put i a).put j b).call c).pairAt i = a.pair :=
    pairAt_of_get ((get_put_ne _ hij.symm b).trans (get_put_self hi a))
  have hother : (((w.put i a).put j b).call c).pairAt j = b.pair :=
    pairAt_of_get (get_put_self ((get_put_ne w hij a).trans hj) b)
  rw [hthis, hother, pairAt_of_get hi, pairAt_of_get hj,
    deletedSince_call w ((w.put i a).put j b) rfl]

/-- The left-hand side has disposed of its pair; the move, or the deleter, threw. -/
theorem moveAssign_dealloc_safe (hi : w.get i = some p) (hj : w.get j = some q) (hij : i ≠ j)
    (moved : R) (op : UserOp) :
    Safe w ((w.put i p.dealloc.1).call p.dealloc.2) (.moveAssign i j moved) (.threw op) := by
  refine ⟨?_, nofun⟩
  have hthis : ((w.put i p.dealloc.1).call p.dealloc.2).pairAt i = 0 :=
    (pairAt_of_get (get_put_self hi _)).trans p.dealloc_pair
  have hr : ((w.put i p.dealloc.1).call p.dealloc.2).pairAt j = q.pair :=
    pairAt_of_get ((get_put_ne w hij _).trans hj)
  show KeepsPairs (w.pairAt i) (w.pairAt j) (pairAt _ i) (pairAt _ j) _
  rw [hthis, hr, pairAt_of_get hi, pairAt_of_get hj]
  exact .disposed q.pair fun x hx => mem_deletedSince rfl hx

/-- The flag of the left-hand side is off, but its deleter was not entered: what it held
is held by nobody and was not disposed of. -/
theorem moveAssign_copyArgument_not_safe (hi : w.get i = some p) (hj : w.get j = some q)
    (hij : i ≠ j) (hapart : Apart p.pair q.pair) (moved : R) (hhas : p.hasResource = true) :
    ¬ Safe w (w.put i p.dealloc.1) (.moveAssign i j moved) (.threw .copyArgument) := by
  intro hsafe
  have hheld : (p.resource_, p.delete_) ∈ w.pairAt i := by
    rw [pairAt_of_get hi]
    exact ResourcePtr.mem_pair.mpr ⟨hhas, rfl⟩
  have hthis : (w.put i p.dealloc.1).pairAt i = 0 :=
    (pairAt_of_get (get_put_self hi _)).trans p.dealloc_pair
  have hr : (w.put i p.dealloc.1).pairAt j = q.pair :=
    pairAt_of_get ((get_put_ne w hij _).trans hj)
  have hcalls : (p.resource_, p.delete_) ∉ deletedSince w (w.put i p.dealloc.1) := by
    have hnone := deletedSince_call w (w.put i p.dealloc.1) rfl none
    rw [call_none] at hnone
    rw [hnone]
    exact List.not_mem_nil
  rcases hsafe.keeps _ (.inl hheld) hcalls with ⟨hmem, -⟩ | ⟨hmem, -⟩
  · change _ ∈ pairAt _ i at hmem
    rw [hthis] at hmem
    exact Multiset.notMem_zero _ hmem
  · change _ ∈ pairAt _ j at hmem
    rw [hr] at hmem
    exact hapart _ _ _ (ResourcePtr.mem_pair.mpr ⟨hhas, rfl⟩) hmem

/-- `dealloc()` has a deleter to call exactly if a resource is held. -/
theorem isSome_dealloc (p : ResourcePtr R D) : p.dealloc.2.isSome = p.hasResource := by
  obtain ⟨r, d, b⟩ := p
  cases b <;> rfl

/-- With another deleter the pair is the same if none is held, or if the deleters do not
differ. -/
theorem pair_delete {d : D} (h : q.hasResource = false ∨ d = q.delete_) :
    (⟨q.resource_, d, q.initialized_⟩ : ResourcePtr R D).pair = q.pair := by
  rcases h with hhas | rfl
  · rw [ResourcePtr.pair_of_not_hasResource hhas]
    exact ResourcePtr.pair_of_not_hasResource hhas
  · rfl

/-- What was held is what the pending call disposes of. -/
theorem mem_pending_of_mem_pair {x : R × D} (hx : x ∈ p.pair) :
    x ∈ p.dealloc.2.toList.map DeleterCall.pair := by
  rw [← mem_pendingPair, p.dealloc_pending]
  exact hx

/-- The move assignment returned: the left-hand side has disposed of its own resource, and
has what `r` held. -/
theorem moveAssign_returned_safe (hi : w.get i = some p) (hj : w.get j = some q) (hij : i ≠ j)
    (moved : R) :
    Safe w (((w.put i q).put j ⟨moved, q.delete_, false⟩).call p.dealloc.2)
      (.moveAssign i j moved) .returned := by
  refine ⟨(keeps_put_put_call hi hj hij _ _ _).mpr ?_, nofun⟩
  exact .replaced q.pair fun x hx => mem_pending_of_mem_pair hx

/-- The copy of the deleter threw: the resource has been transferred, and meets the
deleter of the left-hand side. -/
theorem moveAssign_threw_safe_iff (hi : w.get i = some p) (hj : w.get j = some q) (hij : i ≠ j)
    (hapart : Apart p.pair q.pair) (moved : R) :
    Safe w (((w.put i ⟨q.resource_, p.delete_, q.initialized_⟩).put j
        ⟨moved, q.delete_, false⟩).call p.dealloc.2) (.moveAssign i j moved)
      (.threw .copyDeleter) ↔ q.hasResource = false ∨ p.delete_ = q.delete_ := by
  have hkeeps := keeps_put_put_call hi hj hij ⟨q.resource_, p.delete_, q.initialized_⟩
    ⟨moved, q.delete_, false⟩ p.dealloc.2
  constructor
  · intro hsafe
    cases hhas : q.hasResource with
    | false => exact .inl rfl
    | true =>
      have hq : (q.resource_, q.delete_) ∈ q.pair := ResourcePtr.mem_pair.mpr ⟨hhas, rfl⟩
      have hcalls : (q.resource_, q.delete_) ∉ p.dealloc.2.toList.map DeleterCall.pair := by
        rw [← mem_pendingPair, p.dealloc_pending]
        exact fun hp => hapart _ _ _ hp hq
      rcases hkeeps.mp hsafe.keeps _ (.inr hq) hcalls with ⟨ha, -⟩ | ⟨hzero, -⟩
      · exact .inr (congrArg Prod.snd (ResourcePtr.mem_pair.mp ha).2).symm
      · exact absurd hzero (Multiset.notMem_zero _)
  · intro hcond
    refine ⟨hkeeps.mpr ?_, nofun⟩
    rw [pair_delete hcond]
    exact .replaced q.pair fun x hx => mem_pending_of_mem_pair hx

/-- The exits, in the order of the code. The copy of the argument comes first, and is the
only one at which the deleter of the left-hand side has not been called. -/
theorem moveAssign_exits {w' : World R D} {moved : R} {throws : UserOp → Bool}
    {o : TransferOutcome} (hi : w.get i = some p) (hj : w.get j = some q) (hij : i ≠ j)
    (h : w.moveAssignThrowing i j moved throws = some (w', o)) :
    ((p.hasResource && throws .copyArgument) = true ∧
      w' = w.put i p.dealloc.1 ∧ o = .threw .copyArgument) ∨
    (p.hasResource && throws .copyArgument) = false ∧
      (((p.hasResource && throws .callDeleter) = true ∧
        w' = (w.put i p.dealloc.1).call p.dealloc.2 ∧ o = .threw .callDeleter) ∨
      ((p.hasResource && throws .callDeleter) = false ∧ throws .moveResource = true ∧
        w' = (w.put i p.dealloc.1).call p.dealloc.2 ∧ o = .threw .moveResource) ∨
      ((p.hasResource && throws .callDeleter) = false ∧ throws .moveResource = false ∧
        throws .copyDeleter = true ∧
        w' = ((w.put i ⟨q.resource_, p.delete_, q.initialized_⟩).put j
          ⟨moved, q.delete_, false⟩).call p.dealloc.2 ∧ o = .threw .copyDeleter) ∨
      ((p.hasResource && throws .callDeleter) = false ∧ throws .moveResource = false ∧
        throws .copyDeleter = false ∧
        w' = ((w.put i q).put j ⟨moved, q.delete_, false⟩).call p.dealloc.2 ∧
        o = .returned)) := by
  rw [moveAssignThrowing_ne hi hj hij, isSome_dealloc] at h
  rcases exit_cases (Option.some.inj h) with ⟨hargument, heq⟩ | ⟨hargument, hrest⟩
  · exact .inl ⟨hargument, Prod.mk.inj heq⟩
  · refine .inr ⟨hargument, ?_⟩
    rcases exit_cases hrest with ⟨hdeleter, heq⟩ | ⟨hdeleter, hrest⟩
    · exact .inl ⟨hdeleter, Prod.mk.inj heq⟩
    · rcases exit_cases hrest with ⟨hresource, heq⟩ | ⟨hresource, hrest⟩
      · exact .inr (.inl ⟨hdeleter, hresource, Prod.mk.inj heq⟩)
      · rcases exit_cases hrest with ⟨hcopy, heq⟩ | ⟨hcopy, heq⟩
        · exact .inr (.inr (.inl ⟨hdeleter, hresource, hcopy, Prod.mk.inj heq⟩))
        · exact .inr (.inr (.inr ⟨hdeleter, hresource, hcopy, Prod.mk.inj heq.symm⟩))

/-- The condition, where both objects are known. -/
theorem harmless_moveAssign_iff (hi : w.get i = some p) (hj : w.get j = some q) (moved : R)
    (throws : UserOp → Bool) :
    Harmless w throws (.moveAssign i j moved) ↔
      (p.hasResource && throws .copyArgument) = false ∧
        ((p.hasResource && throws .callDeleter) = true ∨ throws .moveResource = true ∨
          throws .copyDeleter = false ∨ q.hasResource = false ∨ p.delete_ = q.delete_) := by
  simp [Harmless, hi, hj]

/-- Two of the five exits are not safe by themselves: the copy of the argument loses what
the left-hand side held, and the copy of the deleter mixes up what `r` held. -/
theorem moveAssign_safe_iff {w' : World R D} {moved : R} {throws : UserOp → Bool}
    {o : TransferOutcome} (hi : w.get i = some p) (hj : w.get j = some q) (hij : i ≠ j)
    (hapart : Apart p.pair q.pair)
    (h : w.moveAssignThrowing i j moved throws = some (w', o)) :
    Safe w w' (.moveAssign i j moved) o ↔ Harmless w throws (.moveAssign i j moved) := by
  rw [harmless_moveAssign_iff hi hj]
  rcases moveAssign_exits hi hj hij h with ⟨hargument, rfl, rfl⟩ | ⟨hargument,
    ⟨hdeleter, rfl, rfl⟩ | ⟨-, hresource, rfl, rfl⟩ | ⟨hdeleter, hresource, hcopy, rfl, rfl⟩ |
      ⟨-, -, hcopy, rfl, rfl⟩⟩
  · have hhas : p.hasResource = true := (Bool.and_eq_true_iff.mp hargument).1
    refine iff_of_false (moveAssign_copyArgument_not_safe hi hj hij hapart moved hhas) ?_
    rintro ⟨hfalse, -⟩
    cases hargument.symm.trans hfalse
  · exact iff_of_true (moveAssign_dealloc_safe hi hj hij moved _) ⟨hargument, .inl hdeleter⟩
  · exact iff_of_true (moveAssign_dealloc_safe hi hj hij moved _)
      ⟨hargument, .inr (.inl hresource)⟩
  · rw [moveAssign_threw_safe_iff hi hj hij hapart]
    simp only [hargument, hdeleter, hresource, hcopy, false_or, true_and, reduceCtorEq]
  · exact iff_of_true (moveAssign_returned_safe hi hj hij moved)
      ⟨hargument, .inr (.inr (.inl hcopy))⟩

/-! ## Swap -/

/-- Two objects look the same after their resources were exchanged. -/
theorem seen_exchanged (p q : ResourcePtr R D) :
    ((⟨q.resource_, p.delete_, p.initialized_⟩ : ResourcePtr R D).seen = p.seen ∧
      (⟨p.resource_, q.delete_, q.initialized_⟩ : ResourcePtr R D).seen = q.seen) ↔
        (p.hasResource = false ∧ q.hasResource = false) ∨ p.resource_ = q.resource_ := by
  rw [p.seen_resource, q.seen_resource]
  constructor
  · rintro ⟨hp | hp, hq | hq⟩
    · exact .inl ⟨hp, hq⟩
    · exact .inr hq
    · exact .inr hp.symm
    · exact .inr hq
  · rintro (⟨hp, hq⟩ | heq)
    · exact ⟨.inl hp, .inl hq⟩
    · exact ⟨.inr heq.symm, .inr heq⟩

/-- The same where no deleter was called. -/
theorem keeps_put_put (hi : w.get i = some p) (hj : w.get j = some q) (hij : i ≠ j)
    (a b : ResourcePtr R D) :
    KeepsPairs (w.pairAt i) (w.pairAt j) (((w.put i a).put j b).pairAt i)
        (((w.put i a).put j b).pairAt j) (deletedSince w ((w.put i a).put j b)) ↔
      KeepsPairs p.pair q.pair a.pair b.pair [] := by
  have hkeeps := keeps_put_put_call hi hj hij a b none
  rwa [call_none] at hkeeps

/-- The swap of the deleters threw: the resources are exchanged, nothing else is. -/
theorem swap_threw_safe_iff (hi : w.get i = some p) (hj : w.get j = some q) (hij : i ≠ j)
    (hapart : Apart p.pair q.pair) :
    Safe w ((w.put i ⟨q.resource_, p.delete_, p.initialized_⟩).put j
        ⟨p.resource_, q.delete_, q.initialized_⟩) (.swap i j) (.threw .swapDeleter) ↔
      (p.hasResource = false ∧ q.hasResource = false) ∨ p.resource_ = q.resource_ := by
  have hun : Unchanged w ((w.put i ⟨q.resource_, p.delete_, p.initialized_⟩).put j
      ⟨p.resource_, q.delete_, q.initialized_⟩) ↔
        (p.hasResource = false ∧ q.hasResource = false) ∨ p.resource_ = q.resource_ := by
    rw [unchanged_put_put hi hj hij, seen_exchanged]
  rw [← hun]
  constructor
  · exact fun hsafe => hsafe.unchanged rfl ⟨_, rfl⟩
  · intro hunchanged
    obtain ⟨ha, hb⟩ := (unchanged_put_put hi hj hij).mp hunchanged
    refine ⟨(keeps_put_put hi hj hij _ _).mpr ?_, fun _ _ => hunchanged⟩
    rw [ResourcePtr.pair_eq_of_seen ha, ResourcePtr.pair_eq_of_seen hb]
    exact .same hapart _

/-- The exits of `swap`, in the order of the code. -/
theorem swap_exits {w' : World R D} {throws : UserOp → Bool} {o : TransferOutcome}
    (hi : w.get i = some p) (hj : w.get j = some q) (hij : i ≠ j)
    (h : w.swapThrowing i j throws = some (w', o)) :
    (throws .swapResource = true ∧ w' = w ∧ o = .threw .swapResource) ∨
    (throws .swapResource = false ∧ throws .swapDeleter = true ∧
      w' = (w.put i ⟨q.resource_, p.delete_, p.initialized_⟩).put j
        ⟨p.resource_, q.delete_, q.initialized_⟩ ∧ o = .threw .swapDeleter) ∨
    (throws .swapResource = false ∧ throws .swapDeleter = false ∧
      w' = (w.put i q).put j p ∧ o = .returned) := by
  rw [swapThrowing_ne hi hj hij] at h
  rcases exit_cases (Option.some.inj h) with ⟨hresource, heq⟩ | ⟨hresource, hrest⟩
  · exact .inl ⟨hresource, Prod.mk.inj heq⟩
  · rcases exit_cases hrest with ⟨hdeleter, heq⟩ | ⟨hdeleter, heq⟩
    · exact .inr (.inl ⟨hresource, hdeleter, Prod.mk.inj heq⟩)
    · exact .inr (.inr ⟨hresource, hdeleter, Prod.mk.inj heq.symm⟩)

/-- The condition, where both objects are known. -/
theorem harmless_swap_iff (hi : w.get i = some p) (hj : w.get j = some q)
    (throws : UserOp → Bool) :
    Harmless w throws (.swap i j) ↔
      throws .swapResource = true ∨ throws .swapDeleter = false ∨
        (p.hasResource = false ∧ q.hasResource = false) ∨ p.resource_ = q.resource_ := by
  simp [Harmless, hi, hj]

/-- Only the exit between the two swaps is not safe by itself. -/
theorem swap_safe_iff {w' : World R D} {throws : UserOp → Bool} {o : TransferOutcome}
    (hi : w.get i = some p) (hj : w.get j = some q) (hij : i ≠ j)
    (hapart : Apart p.pair q.pair) (h : w.swapThrowing i j throws = some (w', o)) :
    Safe w w' (.swap i j) o ↔ Harmless w throws (.swap i j) := by
  rw [harmless_swap_iff hi hj]
  rcases swap_exits hi hj hij h with
    ⟨hresource, rfl, rfl⟩ | ⟨hresource, hdeleter, rfl, rfl⟩ | ⟨-, hdeleter, rfl, rfl⟩
  · refine iff_of_true ⟨?_, fun _ _ => unchanged_refl w'⟩ (.inl hresource)
    show KeepsPairs (w'.pairAt i) (w'.pairAt j) (w'.pairAt i) (w'.pairAt j) _
    rw [pairAt_of_get hi, pairAt_of_get hj]
    exact .same hapart _
  · rw [swap_threw_safe_iff hi hj hij hapart]
    simp only [hresource, hdeleter, false_or, reduceCtorEq]
  · refine iff_of_true ⟨(keeps_put_put hi hj hij _ _).mpr (.exchanged hapart _), ?_⟩
      (.inr (.inl hdeleter))
    rintro - ⟨op, hop⟩
    cases hop

/-! ## A harmless transfer loses nothing -/

/-- What is accounted for stays so if an object is written that holds the same. -/
theorem accounted_put_same (hi : w.get i = some p) {a : ResourcePtr R D} (ha : a.pair = p.pair) :
    (w.put i a).accounted = w.accounted := by
  have hput := accounted_put_add hi a
  rw [ha] at hput
  exact add_right_cancel hput

/-- A resource that goes to its deleter stays accounted for: it moves from the held ones to
the disposed ones. -/
theorem accounted_dealloc (hi : w.get i = some p) {a : ResourcePtr R D} (ha : a.pair = 0) :
    ((w.put i a).call p.dealloc.2).accounted = w.accounted := by
  have hbal : a.pair + pendingPair p.dealloc.2 + 0 = p.pair + 0 := by
    rw [ha, p.dealloc_pending, zero_add]
  simpa using accounted_put hi hbal

/-- A harmless move construction loses nothing, whichever exit it takes. -/
theorem moveConstruct_accounted_of_harmless {w' : World R D} {moved : R}
    {throws : UserOp → Bool} {o : TransferOutcome}
    (hharmless : Harmless w throws (.moveConstruct i moved))
    (h : w.moveConstructThrowing i moved throws = some (w', o)) :
    w'.accounted = w.accounted := by
  obtain ⟨q, hq, -⟩ := Option.bind_eq_some_iff.mp h
  rw [harmless_moveConstruct_iff hq] at hharmless
  rcases moveConstruct_exits hq h with ⟨-, rfl, -⟩ | ⟨hresource, hcopy, rfl, -⟩ | ⟨-, -, rfl, -⟩
  · rfl
  · have hcond : q.hasResource = false ∨ moved = q.resource_ := by
      simpa only [hresource, hcopy, false_or, reduceCtorEq] using hharmless
    exact accounted_put_same hq (ResourcePtr.pair_eq_of_seen ((q.seen_resource moved).mpr hcond))
  · rw [accounted_construct]
    simpa using accounted_put_add hq ⟨moved, q.delete_, false⟩

/-- Nor does a harmless move assignment, to itself neither: a self-assignment disposes of
the resource. -/
theorem moveAssign_accounted_of_harmless {w' : World R D} {moved : R} {throws : UserOp → Bool}
    {o : TransferOutcome} (hharmless : Harmless w throws (.moveAssign i j moved))
    (h : w.moveAssignThrowing i j moved throws = some (w', o)) :
    w'.accounted = w.accounted := by
  obtain ⟨p, hp, h'⟩ := Option.bind_eq_some_iff.mp h
  obtain ⟨q, hq, -⟩ := Option.bind_eq_some_iff.mp h'
  rw [harmless_moveAssign_iff hp hq] at hharmless
  obtain ⟨hargument, hharmless⟩ := hharmless
  by_cases hij : i = j
  · subst hij
    rw [← isSome_dealloc] at hargument
    obtain ⟨a, o', ha, hself⟩ := moveAssignThrowing_self hp moved hargument
    rw [hself] at h
    obtain ⟨rfl, -⟩ := Prod.mk.inj (Option.some.inj h)
    exact accounted_dealloc hp (ResourcePtr.pair_of_not_hasResource ha)
  · rcases moveAssign_exits hp hq hij h with ⟨htaken, -⟩ | ⟨-,
      ⟨-, rfl, -⟩ | ⟨-, -, rfl, -⟩ | ⟨hdeleter, hresource, hcopy, rfl, -⟩ | ⟨-, -, -, rfl, -⟩⟩
    · cases htaken.symm.trans hargument
    · exact accounted_dealloc hp p.dealloc_pair
    · exact accounted_dealloc hp p.dealloc_pair
    · have hcond : q.hasResource = false ∨ p.delete_ = q.delete_ := by
        simpa only [hdeleter, hresource, hcopy, false_or, reduceCtorEq] using hharmless
      refine accounted_put_put hp hq hij ?_
      rw [pair_delete hcond, ResourcePtr.pair_of_empty, add_zero, p.dealloc_pending, add_comm]
    · refine accounted_put_put hp hq hij ?_
      rw [ResourcePtr.pair_of_empty, add_zero, p.dealloc_pending, add_comm]

/-- Nor does a harmless swap. -/
theorem swap_accounted_of_harmless {w' : World R D} {throws : UserOp → Bool}
    {o : TransferOutcome} (hharmless : Harmless w throws (.swap i j))
    (h : w.swapThrowing i j throws = some (w', o)) : w'.accounted = w.accounted := by
  obtain ⟨p, hp, h'⟩ := Option.bind_eq_some_iff.mp h
  obtain ⟨q, hq, -⟩ := Option.bind_eq_some_iff.mp h'
  by_cases hij : i = j
  · subst hij
    rw [swapThrowing_self hp] at h
    obtain ⟨rfl, -⟩ := Prod.mk.inj (Option.some.inj h)
    rfl
  · rw [harmless_swap_iff hp hq] at hharmless
    rcases swap_exits hp hq hij h with ⟨-, rfl, -⟩ | ⟨hresource, hdeleter, rfl, -⟩ | ⟨-, -, rfl, -⟩
    · rfl
    · have hcond : (p.hasResource = false ∧ q.hasResource = false) ∨
          p.resource_ = q.resource_ := by
        simpa only [hresource, hdeleter, false_or, reduceCtorEq] using hharmless
      obtain ⟨ha, hb⟩ := (seen_exchanged p q).mpr hcond
      rw [accounted_put_same ((get_put_ne w hij _).trans hq) (ResourcePtr.pair_eq_of_seen hb),
        accounted_put_same hp (ResourcePtr.pair_eq_of_seen ha)]
    · have hbal := accounted_put_put (c := none) (a := q) (b := p) hp hq hij
        (by rw [add_comm q.pair]; exact add_zero _)
      rwa [call_none] at hbal

/-- **A harmless transfer loses nothing.** This is the step lemma of the invariant: runs
may take harmless exits and go on. -/
theorem transfer_accounted {w' : World R D} {t : Transfer R} {throws : UserOp → Bool}
    {o : TransferOutcome} (hharmless : Harmless w throws t)
    (h : w.transfer throws t = some (w', o)) : w'.accounted = w.accounted := by
  cases t with
  | moveConstruct r moved => exact moveConstruct_accounted_of_harmless hharmless h
  | moveAssign this r moved => exact moveAssign_accounted_of_harmless hharmless h
  | swap this other => exact swap_accounted_of_harmless hharmless h
  | freeSwap lhs rhs => exact swap_accounted_of_harmless hharmless h

end Pairwise

end World

/-! ## Runs with transfers that throw -/

/-- A call of a client: an operation in which at most a deleter throws, or a transfer in
which anything may. -/
inductive Call (R D : Type) where
  | op (op : Op R D) (throws : Bool)
  | transfer (t : Transfer R) (throws : UserOp → Bool)

namespace History

open World

/-- One step of a run with such calls. -/
def callStep [DecidableEq R] (h : History R D) : Call R D → Option (History R D)
  | .op op throws => h.step (op, throws)
  | .transfer t throws => (h.world.transfer throws t).map fun p => { h with world := p.1 }

/-- The condition on a call of a run. Operations in which at most a deleter throws need
none. -/
def CallHarmless (h : History R D) : Call R D → Prop
  | .op _ _ => True
  | .transfer t throws => h.world.Harmless throws t

/-- The invariant of these runs: all resources that were handed in are accounted for, and
no two are the same. -/
theorem conserved_callStep [DecidableEq R] {h h' : History R D} {c : Call R D}
    (hinv : h.Conserved ∧ h.Distinct) (hstep : h.callStep c = some h') (hc : h.CallHarmless c) :
    h'.Conserved ∧ h'.Distinct := by
  cases c with
  | op op throws => exact ⟨conserved_step hinv.1 hstep, distinct_step hinv.2 hstep⟩
  | transfer t throws =>
    obtain ⟨⟨w', o⟩, hw, rfl⟩ := Option.map_eq_some_iff.mp hstep
    refine ⟨?_, hinv.2⟩
    show w'.accounted + _ = _
    rw [transfer_accounted hc hw]
    exact hinv.1

/-- No resource is held twice: the resources handed in are different, and each is accounted
for once. -/
theorem Conserved.apart {h : History R D} (hc : h.Conserved) (hd : h.Distinct) {i j : Nat}
    {p q : ResourcePtr R D} (hi : h.world.get i = some p) (hj : h.world.get j = some q)
    (hij : i ≠ j) : Apart p.pair q.pair := by
  intro a d d' hp hq
  -- take the first pair out: the second is still there
  let w₀ := h.world.put i ⟨p.resource_, p.delete_, false⟩
  have hput : w₀.accounted + p.pair = h.world.accounted := by
    simpa using accounted_put_add hi ⟨p.resource_, p.delete_, false⟩
  obtain ⟨hhas, hx⟩ := ResourcePtr.mem_pair.mp hq
  have hmem : (a, d') ∈ w₀.accounted := by
    rw [hx]
    exact Multiset.mem_add.mpr (.inl (mem_heldPairs ((get_put_ne _ hij _).trans hj) hhas))
  have hnodup : ((h.issued : Multiset (R × D)).map Prod.fst).Nodup := hd
  rw [← show _ = _ from hc, ← hput, Multiset.map_add, Multiset.map_add, Multiset.nodup_add,
    Multiset.nodup_add] at hnodup
  have ha₀ : a ∈ w₀.accounted.map Prod.fst := Multiset.mem_map_of_mem Prod.fst hmem
  have ha : a ∈ p.pair.map Prod.fst := Multiset.mem_map_of_mem Prod.fst hp
  exact Multiset.disjoint_left.mp hnodup.1.2.2 ha₀ ha

/-- **The exception safety of transfers**: after any number of operations and of harmless
transfers, a transfer between two objects in which any user-supplied operations throw
keeps every resource with its deleter, and undoes what it promises to undo, exactly when
it is harmless. -/
theorem transfer_safe_iff [DecidableEq R] {calls : List (Call R D)} {h : History R D}
    (hrun : run callStep empty calls = some h) (hmeets : Meets callStep CallHarmless empty calls)
    {t : Transfer R} {throws : UserOp → Bool} {w' : World R D} {o : TransferOutcome}
    (hdistinct : (h.world.objectsOf t).1 ≠ (h.world.objectsOf t).2)
    (htransfer : h.world.transfer throws t = some (w', o)) :
    Safe h.world w' t o ↔ h.world.Harmless throws t := by
  have hinv : Always callStep (fun h : History R D => h.Conserved ∧ h.Distinct) empty calls :=
    always_of_meets (fun _ _ _ => conserved_callStep) ⟨conserved_empty, List.nodup_nil⟩ hmeets
  obtain ⟨hc, hd⟩ := hinv calls (List.prefix_refl calls) h hrun
  cases t with
  | moveConstruct r moved =>
    obtain ⟨q, hq, -⟩ := Option.bind_eq_some_iff.mp htransfer
    exact moveConstruct_safe_iff hq htransfer
  | moveAssign i j moved =>
    obtain ⟨p, hp, h'⟩ := Option.bind_eq_some_iff.mp htransfer
    obtain ⟨q, hq, -⟩ := Option.bind_eq_some_iff.mp h'
    exact moveAssign_safe_iff hp hq hdistinct (hc.apart hd hp hq hdistinct) htransfer
  | swap i j =>
    obtain ⟨p, hp, h'⟩ := Option.bind_eq_some_iff.mp htransfer
    obtain ⟨q, hq, -⟩ := Option.bind_eq_some_iff.mp h'
    exact swap_safe_iff hp hq hdistinct (hc.apart hd hp hq hdistinct) htransfer
  | freeSwap i j =>
    obtain ⟨p, hp, h'⟩ := Option.bind_eq_some_iff.mp htransfer
    obtain ⟨q, hq, -⟩ := Option.bind_eq_some_iff.mp h'
    have hiff := swap_safe_iff hp hq hdistinct (hc.apart hd hp hq hdistinct) htransfer
    exact ⟨fun hsafe => hiff.mp ⟨hsafe.keeps, hsafe.unchanged⟩,
      fun hh => ⟨(hiff.mpr hh).keeps, (hiff.mpr hh).unchanged⟩⟩

/-- Two objects that hold something. -/
def twoHeld : List (Call Nat Nat) := [.op (.ofResource 1 10) false, .op (.ofResource 2 20) false]

/-- The history after these two calls. -/
def twoHeldHistory : History Nat Nat :=
  ⟨⟨[some ⟨1, 10, true⟩, some ⟨2, 20, true⟩], []⟩, [(1, 10), (2, 20)], []⟩

/-- Neither of the calls is a transfer. -/
theorem meets_twoHeld : Meets callStep CallHarmless (empty : History Nat Nat) twoHeld :=
  meets_cons.mpr fun _ _ => ⟨trivial, meets_cons.mpr fun _ _ => ⟨trivial, meets_nil _⟩⟩

/-- The move assignment in which the copy of the deleter throws: resource 2 is left with
deleter 10. -/
theorem transfer_safe_iff_twoHeld :
    Safe twoHeldHistory.world ⟨[some ⟨2, 10, true⟩, some ⟨0, 20, false⟩], [⟨10, 1⟩]⟩
        (.moveAssign 0 1 0) (.threw .copyDeleter) ↔
      twoHeldHistory.world.Harmless (fun op => op == .copyDeleter) (.moveAssign 0 1 0) :=
  transfer_safe_iff (show run callStep empty twoHeld = some twoHeldHistory from rfl)
    meets_twoHeld (by decide) rfl

/-- The swap of the deleters throws: each of the two objects is left with the other's
resource and its own deleter. -/
theorem swap_twoHeld_not_safe :
    run callStep empty twoHeld = some twoHeldHistory ∧
      ∃ w', twoHeldHistory.world.transfer (fun op => op == .swapDeleter) (.swap 0 1) =
          some (w', .threw .swapDeleter) ∧
        w'.get 0 = some ⟨2, 10, true⟩ ∧
        ¬ Safe twoHeldHistory.world w' (.swap 0 1) (.threw .swapDeleter) := by
  refine ⟨rfl, ⟨[some ⟨2, 10, true⟩, some ⟨1, 20, true⟩], []⟩, rfl, rfl, fun hsafe => ?_⟩
  have hseen := hsafe.unchanged rfl ⟨_, rfl⟩ 0
  cases hseen

end History

end LomiriApi
