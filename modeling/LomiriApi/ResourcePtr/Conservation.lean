import LomiriApi.Lib.Ledger
import LomiriApi.ResourcePtr.World
import Mathlib.Data.Multiset.AddSub
import Mathlib.Algebra.Order.Group.Multiset

/-!
# `ResourcePtr` conserves resources

The abstract account of a world is a multiset of (resource, deleter) pairs:
`accounted w` is what the live objects hold plus what the deleter calls have
disposed of.

- `accounted_put`: the rule for an operation on one object. What the object holds
  before, plus what is handed in, must be what it holds afterwards, plus the
  pending deleter call, plus what is handed out.
- `apply_conserves`: every operation, with a deleter call that returns or
  throws, satisfies the conservation law.
- `conserved_of_reachable`: hence every reachable history does; the pairs handed
  in are exactly the pairs held, released and deleted. Because the law speaks of
  pairs, it also says that a resource meets the deleter it was installed with.
-/

namespace LomiriApi

open Lib

variable {R D : Type}

/-! ## The account of a world -/

/-- The pair an object holds, as a multiset of at most one pair, so that the account of a
world is a sum. -/
def ResourcePtr.pair (p : ResourcePtr R D) : Multiset (R × D) :=
  if p.initialized_ then {(p.resource_, p.delete_)} else 0

/-- The pair a deleter call disposes of. -/
def DeleterCall.pair (c : DeleterCall R D) : R × D := (c.resource, c.deleter)

/-- The pair at an address. -/
def slotPair (o : Option (ResourcePtr R D)) : Multiset (R × D) := o.elim 0 ResourcePtr.pair

/-- The pair a pending call is about to dispose of. -/
def pendingPair (c : Option (DeleterCall R D)) : Multiset (R × D) := c.elim 0 fun c => {c.pair}

namespace World

/-- What the live objects hold. -/
def heldPairs (w : World R D) : Multiset (R × D) := total slotPair w.objs

/-- What the deleters have been called with. -/
def deletedPairs (w : World R D) : Multiset (R × D) := w.calls.map DeleterCall.pair

/-- Everything that is held or has been deleted. A resource that is lost would be in
neither part, and one that is deleted twice would be counted twice. -/
def accounted (w : World R D) : Multiset (R × D) := w.heldPairs + w.deletedPairs

/-- A deleter call that has been made moves its pair from the pending ones to the
account. -/
theorem accounted_call (w : World R D) (c : Option (DeleterCall R D)) :
    (w.call c).accounted = w.accounted + pendingPair c := by
  cases c with
  | none => simp [accounted, heldPairs, deletedPairs, pendingPair]
  | some c =>
    simp only [accounted, heldPairs, deletedPairs, pendingPair, call_objs, call_calls,
      Option.toList_some, List.map_append, List.map_cons, List.map_nil, ← Multiset.coe_add,
      Option.elim_some, add_assoc]
    rfl

/-- Overwriting one object changes the account by the difference of what it holds. The rule
is an addition on both sides, as multisets cannot be subtracted safely. -/
theorem accounted_put_add {w : World R D} {i : Nat} {p : ResourcePtr R D} (h : w.get i = some p)
    (q : ResourcePtr R D) : (w.put i q).accounted + p.pair = w.accounted + q.pair := by
  have hset := total_set slotPair (get_eq_some.mp h) (some q)
  show total slotPair (w.objs.set i (some q)) + w.deletedPairs + p.pair
    = total slotPair w.objs + w.deletedPairs + q.pair
  rw [add_right_comm, add_right_comm (total slotPair w.objs)]
  exact congrArg (· + w.deletedPairs) hset

/-- Destroying an object takes what it holds out of the account. So the deleter call of the
destructor has to put it back. -/
theorem accounted_remove_add {w : World R D} {i : Nat} {p : ResourcePtr R D}
    (h : w.get i = some p) : (w.remove i).accounted + p.pair = w.accounted := by
  have hset := total_set slotPair (get_eq_some.mp h) none
  show total slotPair (w.objs.set i none) + w.deletedPairs + p.pair
    = total slotPair w.objs + w.deletedPairs
  rw [add_right_comm]
  exact congrArg (· + w.deletedPairs) (hset.trans (add_zero _))

theorem accounted_construct (w : World R D) (p : ResourcePtr R D) :
    (w.construct p).accounted = w.accounted + p.pair := by
  have htotal : total slotPair (w.objs ++ [some p]) = total slotPair w.objs + p.pair := by
    simp [slotPair]
  show total slotPair (w.objs ++ [some p]) + w.deletedPairs
    = total slotPair w.objs + w.deletedPairs + p.pair
  rw [htotal, add_right_comm]

/-- **One-object operations.** If the object's pair and what comes in balance the
new object's pair, the pending call and what goes out, so does the world. -/
theorem accounted_put {w : World R D} {i : Nat} {p q : ResourcePtr R D}
    {c : Option (DeleterCall R D)} {m n : Multiset (R × D)} (h : w.get i = some p)
    (hbal : q.pair + pendingPair c + n = p.pair + m) :
    ((w.put i q).call c).accounted + n = w.accounted + m := by
  have hput := accounted_put_add h q
  refine add_right_cancel (b := p.pair) ?_
  calc ((w.put i q).call c).accounted + n + p.pair
      = ((w.put i q).accounted + p.pair) + (pendingPair c + n) := by
        rw [accounted_call]
        abel
    _ = w.accounted + (q.pair + pendingPair c + n) := by
        rw [hput]
        abel
    _ = w.accounted + m + p.pair := by
        rw [hbal]
        abel

/-- **Two-object operations.** Nothing comes in or goes out; the pairs of the two objects
are only redistributed, or disposed of by the pending call. -/
theorem accounted_put_put {w : World R D} {i j : Nat} {p q a b : ResourcePtr R D}
    {c : Option (DeleterCall R D)} (hi : w.get i = some p) (hj : w.get j = some q) (hij : i ≠ j)
    (hbal : a.pair + b.pair + pendingPair c = p.pair + q.pair) :
    (((w.put i a).put j b).call c).accounted = w.accounted := by
  have h₁ := accounted_put_add hi a
  have h₂ := accounted_put_add ((get_put_ne w hij a).trans hj) b
  refine add_right_cancel (b := p.pair + q.pair) ?_
  calc (((w.put i a).put j b).call c).accounted + (p.pair + q.pair)
      = ((w.put i a).put j b).accounted + q.pair + (p.pair + pendingPair c) := by
        rw [accounted_call]
        abel
    _ = ((w.put i a).accounted + p.pair) + (b.pair + pendingPair c) := by
        rw [h₂]
        abel
    _ = w.accounted + (a.pair + b.pair + pendingPair c) := by
        rw [h₁]
        abel
    _ = w.accounted + (p.pair + q.pair) := by rw [hbal]

end World

/-! ## The members balance -/

namespace ResourcePtr

@[simp] theorem pair_of_empty (r : R) (d : D) : (⟨r, d, false⟩ : ResourcePtr R D).pair = 0 := rfl

@[simp] theorem pair_of_held (r : R) (d : D) :
    (⟨r, d, true⟩ : ResourcePtr R D).pair = {(r, d)} := rfl

/-- `dealloc()` hands what was held to the pending call. -/
theorem dealloc_balance (p : ResourcePtr R D) :
    p.dealloc.1.pair + pendingPair p.dealloc.2 = p.pair := by
  obtain ⟨r, d, b⟩ := p
  cases b <;> rfl

/-- What `dealloc()` leaves, the pending call aside, holds nothing. -/
theorem dealloc_pair (p : ResourcePtr R D) : p.dealloc.1.pair = 0 := by
  obtain ⟨r, d, b⟩ := p
  cases b <;> rfl

/-- The pending call of `dealloc()` disposes of all that was held, since the object that is
left holds nothing. -/
theorem dealloc_pending (p : ResourcePtr R D) : pendingPair p.dealloc.2 = p.pair := by
  have h := p.dealloc_balance
  rwa [dealloc_pair, zero_add] at h

/-- `reset(r)` takes `r` in. It is held with the deleter that is there already, whichever
that is. -/
theorem reset_balance (p : ResourcePtr R D) (r : R) :
    (p.reset r).1.pair + pendingPair (p.reset r).2 = p.pair + {(r, p.delete_)} := by
  obtain ⟨r', d, b⟩ := p
  cases b with
  | true => exact add_comm _ _
  | false => rfl

/-- `release()` hands out what was held; no deleter is called for it. -/
theorem release_balance {p q : ResourcePtr R D} {r : R} (h : p.release = .ok (r, q)) :
    q.pair + {(r, p.delete_)} = p.pair := by
  obtain ⟨r', d, b⟩ := p
  cases b with
  | true =>
    obtain ⟨rfl, rfl⟩ := Prod.mk.inj (Except.ok.inj h)
    rfl
  | false => cases h

end ResourcePtr

/-! ## Every operation conserves -/

open World

/-- An operation that hands nothing in or out. -/
theorem conserves_of_eq {w w' : World R D} {op : Op R D} (hin : op.handsIn w = [])
    (hout : op.handsOut w = []) (h : w'.accounted = w.accounted) :
    w'.accounted + (op.handsOut w : Multiset (R × D))
      = w.accounted + (op.handsIn w : Multiset (R × D)) := by
  rw [hin, hout, h]

/-- `swap` redistributes two pairs, and does nothing to an object that is swapped with
itself. -/
theorem swap_accounted {w w' : World R D} {i j : Nat} {o : Outcome R}
    (h : w.swap i j = some (w', o)) : w'.accounted = w.accounted := by
  obtain ⟨p, hp, h'⟩ := Option.bind_eq_some_iff.mp h
  obtain ⟨q, hq, -⟩ := Option.bind_eq_some_iff.mp h'
  by_cases hij : i = j
  · subst hij
    rw [swap_self hp] at h
    obtain ⟨rfl, -⟩ := Prod.mk.inj (Option.some.inj h)
    rfl
  · rw [swap_ne hp hq hij] at h
    obtain ⟨rfl, -⟩ := Prod.mk.inj (Option.some.inj h)
    have hbal := accounted_put_put (c := none) (a := q) (b := p) hp hq hij
      (by rw [add_comm q.pair]; exact add_zero _)
    simpa [accounted_call, pendingPair] using hbal

/-- Move assignment disposes of what the left side held and moves the pair of the right
side. An object that is assigned to itself disposes of its own resource. -/
theorem moveAssign_accounted {w w' : World R D} {i j : Nat} {moved : R} {throws : Bool}
    {o : Outcome R} (h : w.moveAssign i j moved throws = some (w', o)) :
    w'.accounted = w.accounted := by
  obtain ⟨p, hp, h'⟩ := Option.bind_eq_some_iff.mp h
  obtain ⟨q, hq, -⟩ := Option.bind_eq_some_iff.mp h'
  -- the deleter of the left-hand side threw: only that object has changed
  have hthrew : ((w.put i p.dealloc.1).call p.dealloc.2).accounted = w.accounted := by
    simpa using accounted_put (m := 0) (n := 0) hp (by simpa using p.dealloc_balance)
  by_cases hij : i = j
  · subst hij
    rw [moveAssign_self hp] at h
    split at h
    · obtain ⟨rfl, -⟩ := Prod.mk.inj (Option.some.inj h)
      exact hthrew
    · obtain ⟨rfl, -⟩ := Prod.mk.inj (Option.some.inj h)
      simpa using accounted_put (m := 0) (n := 0) hp (by simpa using p.dealloc_pending)
  · rw [moveAssign_ne hp hq hij] at h
    split at h
    · obtain ⟨rfl, -⟩ := Prod.mk.inj (Option.some.inj h)
      exact hthrew
    · obtain ⟨rfl, -⟩ := Prod.mk.inj (Option.some.inj h)
      refine accounted_put_put hp hq hij ?_
      rw [ResourcePtr.pair_of_empty, add_zero, p.dealloc_pending, add_comm]

/-- **Conservation, one operation**: what is accounted for afterwards, plus what
the operation hands out, is what was accounted for before, plus what it hands
in. -/
theorem apply_conserves {w w' : World R D} {throws : Bool} {op : Op R D} {o : Outcome R}
    (h : w.apply throws op = some (w', o)) :
    w'.accounted + (op.handsOut w : Multiset (R × D))
      = w.accounted + (op.handsIn w : Multiset (R × D)) := by
  cases op with
  | default stored d =>
    obtain ⟨rfl, -⟩ := Prod.mk.inj (Option.some.inj h)
    exact conserves_of_eq rfl rfl ((accounted_construct w _).trans (add_zero _))
  | ofDeleter stored d =>
    obtain ⟨rfl, -⟩ := Prod.mk.inj (Option.some.inj h)
    exact conserves_of_eq rfl rfl ((accounted_construct w _).trans (add_zero _))
  | ofResource r d =>
    obtain ⟨rfl, -⟩ := Prod.mk.inj (Option.some.inj h)
    exact (add_zero _).trans (accounted_construct w _)
  | moveConstruct r moved =>
    obtain ⟨q, hq, -⟩ := Option.bind_eq_some_iff.mp h
    rw [World.apply, moveConstruct_eq hq] at h
    obtain ⟨rfl, -⟩ := Prod.mk.inj (Option.some.inj h)
    refine conserves_of_eq rfl rfl ?_
    rw [accounted_construct]
    simpa using accounted_put_add hq ⟨moved, q.delete_, false⟩
  | moveAssign this r moved => exact conserves_of_eq rfl rfl (moveAssign_accounted h)
  | swap this other => exact conserves_of_eq rfl rfl (swap_accounted h)
  | freeSwap lhs rhs => exact conserves_of_eq rfl rfl (swap_accounted h)
  | reset this r =>
    obtain ⟨p, hp, -⟩ := Option.bind_eq_some_iff.mp h
    rw [apply_reset hp] at h
    obtain ⟨rfl, -⟩ := Prod.mk.inj (Option.some.inj h)
    refine accounted_put (n := 0) hp ?_
    simpa [Op.handsIn, hp] using p.reset_balance r
  | release this =>
    obtain ⟨p, hp, -⟩ := Option.bind_eq_some_iff.mp h
    rw [apply_release hp] at h
    have hin : (Op.release this).handsIn w = [] := rfl
    cases hr : p.release with
    | error e =>
      rw [hr] at h
      obtain ⟨rfl, -⟩ := Prod.mk.inj (Option.some.inj h)
      exact conserves_of_eq hin (by simp [Op.handsOut, hp, hr]) rfl
    | ok rq =>
      obtain ⟨r, q⟩ := rq
      rw [hr] at h
      obtain ⟨rfl, -⟩ := Prod.mk.inj (Option.some.inj h)
      have hout : (Op.release this).handsOut w = [(r, p.delete_)] := by
        simp [Op.handsOut, hp, hr]
      have hbal := accounted_put (c := none) (m := 0) (n := {(r, p.delete_)}) hp
        (by simpa [pendingPair] using ResourcePtr.release_balance hr)
      rw [hin, hout]
      simpa [accounted_call, pendingPair] using hbal
  | dealloc this =>
    obtain ⟨p, hp, -⟩ := Option.bind_eq_some_iff.mp h
    rw [apply_dealloc hp] at h
    obtain ⟨rfl, -⟩ := Prod.mk.inj (Option.some.inj h)
    exact accounted_put (m := 0) (n := 0) hp (by simpa using p.dealloc_balance)
  | get this =>
    obtain ⟨p, hp, -⟩ := Option.bind_eq_some_iff.mp h
    rw [apply_get hp] at h
    obtain ⟨rfl, -⟩ := Prod.mk.inj (Option.some.inj h)
    rfl
  | hasResource this =>
    obtain ⟨p, hp, h⟩ := Option.bind_eq_some_iff.mp h
    obtain ⟨rfl, -⟩ := Prod.mk.inj (Option.some.inj h)
    rfl
  | destroy this =>
    obtain ⟨p, hp, -⟩ := Option.bind_eq_some_iff.mp h
    rw [apply_destroy hp] at h
    obtain ⟨rfl, -⟩ := Prod.mk.inj (Option.some.inj h)
    refine conserves_of_eq rfl rfl ?_
    rw [accounted_call, p.dealloc_pending]
    exact accounted_remove_add hp

/-! ## Every history conserves -/

namespace History

/-- **The conservation law**: the pairs handed in are the pairs held, the pairs
deleted and the pairs handed out. -/
def Conserved (h : History R D) : Prop :=
  h.world.accounted + (h.released : Multiset (R × D)) = (h.issued : Multiset (R × D))

/-- The tokens handed in so far are distinct. -/
def Distinct (h : History R D) : Prop := (h.issued.map Prod.fst).Nodup

theorem conserved_empty : (empty : History R D).Conserved := rfl

/-- What a step of a history does. -/
theorem step_cases [DecidableEq R] {h h' : History R D} {l : Op R D × Bool}
    (hstep : h.step l = some h') :
    (∀ t ∈ l.1.handsIn h.world, t.1 ∉ h.issued.map Prod.fst) ∧
      ∃ o, h.world.apply l.2 l.1 = some (h'.world, o) ∧
        h'.issued = h.issued ++ l.1.handsIn h.world ∧
        h'.released = h.released ++ l.1.handsOut h.world := by
  unfold step at hstep
  split at hstep
  · rename_i hfresh
    obtain ⟨⟨w', o⟩, hw, rfl⟩ := Option.map_eq_some_iff.mp hstep
    exact ⟨hfresh, o, hw, rfl, rfl⟩
  · cases hstep

/-- The step lemma of the histories: an operation keeps the conservation law. -/
theorem conserved_step [DecidableEq R] {h h' : History R D} {l : Op R D × Bool}
    (hc : h.Conserved) (hstep : h.step l = some h') : h'.Conserved := by
  obtain ⟨-, o, hw, hi, hr⟩ := step_cases hstep
  unfold Conserved at hc ⊢
  rw [hi, hr, ← Multiset.coe_add, ← Multiset.coe_add, ← hc, add_right_comm, ← apply_conserves hw]
  abel

/-- One operation hands in at most one resource. -/
theorem handsIn_length (w : World R D) (op : Op R D) : (op.handsIn w).length ≤ 1 := by
  cases op with
  | ofResource r d => exact Nat.le_refl 1
  | reset this r =>
    show ((w.get this).toList.map _).length ≤ 1
    cases w.get this <;> simp
  | _ => exact Nat.zero_le 1

/-- Resources that are handed in once stay distinct as long as every new one is fresh. -/
theorem distinct_step [DecidableEq R] {h h' : History R D} {l : Op R D × Bool}
    (hd : h.Distinct) (hstep : h.step l = some h') : h'.Distinct := by
  obtain ⟨hfresh, o, -, hi, -⟩ := step_cases hstep
  unfold Distinct
  rw [hi, List.map_append]
  refine List.Nodup.append hd ?_ ?_
  · have hlen : ((l.1.handsIn h.world).map Prod.fst).length ≤ 1 := by
      simpa using handsIn_length h.world l.1
    match (l.1.handsIn h.world).map Prod.fst, hlen with
    | [], _ => exact List.nodup_nil
    | [t], _ => exact List.nodup_singleton t
  · rintro t ht ht'
    obtain ⟨⟨t, d⟩, hmem, rfl⟩ := List.mem_map.mp ht'
    exact hfresh _ hmem ht

/-- The conservation law holds of every reachable history, and its tokens are
distinct. -/
theorem conserved_of_reachable [DecidableEq R] {h : History R D} (hr : h.Reachable) :
    h.Conserved ∧ h.Distinct := by
  obtain ⟨ls, hrun⟩ := hr
  refine run_invariant (I := fun h => h.Conserved ∧ h.Distinct) ?_ ⟨conserved_empty, ?_⟩ hrun
  · rintro s l t ⟨hc, hd⟩ hstep
    exact ⟨conserved_step hc hstep, distinct_step hd hstep⟩
  · exact List.nodup_nil

/-! ## One place for each token -/

theorem mem_heldPairs {w : World R D} {i : Nat} {p : ResourcePtr R D} (h : w.get i = some p)
    (hp : p.hasResource = true) : (p.resource_, p.delete_) ∈ w.heldPairs := by
  have hmem : some p ∈ w.objs := List.mem_of_getElem? (World.get_eq_some.mp h)
  obtain ⟨rest, hrest⟩ := total_eq_add_of_mem slotPair hmem
  have hpair : slotPair (some p) = {(p.resource_, p.delete_)} := if_pos hp
  rw [World.heldPairs, hrest, hpair]
  exact Multiset.mem_add.mpr (.inl (Multiset.mem_singleton_self _))

/-- What is held or has been deleted was handed in. -/
theorem Conserved.mem_issued {h : History R D} (hc : h.Conserved) {x : R × D}
    (hx : x ∈ h.world.accounted) : x ∈ h.issued := by
  have hmem : x ∈ h.world.accounted + (h.released : Multiset (R × D)) :=
    Multiset.mem_add.mpr (.inl hx)
  rw [hc] at hmem
  exact hmem

/-- A token is handed in with one deleter. -/
theorem Distinct.deleter_unique {h : History R D} (hd : h.Distinct) {t : R} {d d' : D}
    (h₁ : (t, d) ∈ h.issued) (h₂ : (t, d') ∈ h.issued) : d' = d :=
  congrArg Prod.snd (List.inj_on_of_nodup_map hd h₂ h₁ rfl)

section Places

variable [DecidableEq R]

/-- The number of live objects that hold `t` (`has_resource()` is true and
`get()` returns `t`). -/
def heldCount (h : History R D) (t : R) : Nat :=
  h.world.objs.countP fun o => o.bind ResourcePtr.held = some t

/-- How often `release()` has handed `t` out. -/
def releasedCount (h : History R D) (t : R) : Nat :=
  h.released.countP fun x => x.1 = t

/-- How often a deleter has been called with `t`. -/
def deletedCount (h : History R D) (t : R) : Nat :=
  h.world.calls.countP fun c => c.resource = t

/-- The token `t`, installed with the deleter `d`, is in exactly one place, and
meets no deleter but `d`. -/
structure Accounted (h : History R D) (t : R) (d : D) : Prop where
  once : h.heldCount t + h.releasedCount t + h.deletedCount t = 1
  heldWith : ∀ i p, h.world.get i = some p → p.hasResource = true → p.get = .ok t →
    p.getDeleter = d
  deletedWith : ∀ c ∈ h.world.calls, c.resource = t → c.deleter = d

/-- Counting a resource among the held pairs is counting the objects that hold it. -/
theorem heldPairs_countP (w : World R D) (t : R) :
    w.heldPairs.countP (fun x => x.1 = t)
      = w.objs.countP fun o => o.bind ResourcePtr.held = some t := by
  unfold World.heldPairs
  induction w.objs with
  | nil => rfl
  | cons o os ih =>
    rw [total_cons, Multiset.countP_add, ih, List.countP_cons, add_comm]
    congr 1
    cases o with
    | none => rfl
    | some p =>
      obtain ⟨r, d, b⟩ := p
      cases b with
      | false => rfl
      | true => simp [slotPair, ResourcePtr.held, Multiset.countP_cons, ← Multiset.cons_zero]

/-- Counting a resource among the deleted pairs is counting the deleter calls for it. -/
theorem deletedPairs_countP (w : World R D) (t : R) :
    w.deletedPairs.countP (fun x => x.1 = t) = w.calls.countP fun c => c.resource = t := by
  rw [World.deletedPairs, Multiset.coe_countP, List.countP_map]
  rfl

/-- The three counts of a token add up to how often it was handed in. -/
theorem Conserved.counts {h : History R D} (hc : h.Conserved) (t : R) :
    h.heldCount t + h.releasedCount t + h.deletedCount t
      = (h.issued.map Prod.fst).count t := by
  have hcount := congrArg (Multiset.countP fun x => x.1 = t) hc
  rw [World.accounted, Multiset.countP_add, Multiset.countP_add, heldPairs_countP,
    deletedPairs_countP, Multiset.coe_countP, Multiset.coe_countP] at hcount
  rw [List.count, List.countP_map, add_right_comm]
  exact hcount

/-- What conservation says of one resource: it is held, released or deleted, once in all,
and with the deleter it was installed with. -/
theorem accounted_of_conserved {h : History R D} (hc : h.Conserved) (hd : h.Distinct) {t : R}
    {d : D} (ht : (t, d) ∈ h.issued) : h.Accounted t d where
  once := by
    rw [hc.counts]
    exact List.count_eq_one_of_mem hd (List.mem_map_of_mem (f := Prod.fst) ht)
  heldWith := by
    intro i p hp hhas hget
    have hres : p.resource_ = t := by
      simpa [ResourcePtr.held, show p.initialized_ = true from hhas] using
        ResourcePtr.get_eq_ok_iff.mp hget
    have hmem := hc.mem_issued (Multiset.mem_add.mpr (.inl (mem_heldPairs hp hhas)))
    exact hd.deleter_unique ht (hres ▸ hmem)
  deletedWith := by
    intro c hcall hres
    have hmem : c.pair ∈ h.world.deletedPairs := List.mem_map_of_mem (f := DeleterCall.pair) hcall
    have hissued := hc.mem_issued (Multiset.mem_add.mpr (.inr hmem))
    exact hd.deleter_unique ht (hres ▸ hissued)

/-- **`ResourcePtr` conserves resources.** After every run (of any length, over
any number of objects, with deleters that return or throw at will):

1. every token handed in is held by exactly one live object, or was released
   exactly once, or was passed to a deleter exactly once, and the deleter that
   holds or got it is the one it was installed with;
2. nothing else is held, released or deleted;
3. `get()` and `release()` throw `logic_error` exactly when nothing is held;
4. once all objects are destroyed no token is held;
5. a deleter that throws in the middle of `reset()` leaves the new resource
   installed, and one that throws in the middle of a move assignment leaves the
   source as it was. -/
theorem resourcePtr_conserves {h : History R D} (hr : h.Reachable) :
    (∀ t d, (t, d) ∈ h.issued → h.Accounted t d) ∧
    (∀ t, t ∉ h.issued.map Prod.fst →
      h.heldCount t = 0 ∧ h.releasedCount t = 0 ∧ h.deletedCount t = 0) ∧
    (∀ i p throws, h.world.get i = some p →
      ((∃ w e, h.world.apply throws (.get i) = some (w, .logicError e))
        ↔ p.hasResource = false) ∧
      ((∃ w e, h.world.apply throws (.release i) = some (w, .logicError e))
        ↔ p.hasResource = false)) ∧
    ((∀ i, h.world.get i = none) → ∀ t, h.heldCount t = 0) ∧
    (∀ i p r w, h.world.get i = some p → h.world.apply true (.reset i r) = some (w, .deleterThrew) →
      ∃ q, w.get i = some q ∧ q.get = .ok r) ∧
    (∀ i j q moved w, i ≠ j → h.world.get j = some q →
      h.world.apply true (.moveAssign i j moved) = some (w, .deleterThrew) →
      w.get j = some q) := by
  obtain ⟨hc, hd⟩ := conserved_of_reachable hr
  refine ⟨fun t d ht => accounted_of_conserved hc hd ht, ?_, ?_, ?_, ?_, ?_⟩
  · intro t ht
    have hcounts := hc.counts t
    rw [List.count_eq_zero_of_not_mem ht] at hcounts
    omega
  · intro i p throws hp
    rw [World.apply_get hp, World.apply_release hp, ← p.get_throws_iff]
    have hiff := (p.get_throws_iff).trans p.release_throws_iff.symm
    constructor
    · cases p.get <;> simp
    · rw [hiff]
      cases p.release <;> simp
  · intro hnone t
    refine List.countP_eq_zero.mpr fun o ho => ?_
    obtain ⟨i, hi⟩ := List.mem_iff_getElem?.mp ho
    cases o with
    | none => simp
    | some p => exact absurd (World.get_eq_some.mpr hi) (by simp [hnone])
  · intro i p r w hp hreset
    rw [World.apply_reset hp] at hreset
    obtain ⟨rfl, -⟩ := Prod.mk.inj (Option.some.inj hreset)
    exact ⟨_, World.get_put_self hp _, p.get_reset r⟩
  · intro i j q moved w hij hq hassign
    obtain ⟨p, hp, -⟩ := Option.bind_eq_some_iff.mp hassign
    rw [World.apply, World.moveAssign_ne hp hq hij] at hassign
    split at hassign
    · obtain ⟨rfl, -⟩ := Prod.mk.inj (Option.some.inj hassign)
      exact (World.get_put_ne _ hij _).trans hq
    · cases hassign

end Places

/-- Three objects, a move assignment, a `reset()` whose deleter throws, a
`release()` and a destruction. -/
def sampleRun : List (Op Nat Nat × Bool) :=
  [(.ofResource 1 10, false), (.ofDeleter 0 20, false), (.moveAssign 1 0 0, false),
    (.reset 1 2, true), (.ofResource 3 30, false), (.release 2, false), (.destroy 1, true)]

theorem resourcePtr_conserves_sampleRun :
    (⟨⟨[some ⟨0, 10, false⟩, none, some ⟨3, 30, false⟩], [⟨10, 1⟩, ⟨10, 2⟩]⟩,
        [(1, 10), (2, 10), (3, 30)], [(3, 30)]⟩ : History Nat Nat).Accounted 2 10 :=
  (resourcePtr_conserves ⟨sampleRun, by decide⟩).1 2 10 (by decide)

end History

end LomiriApi
