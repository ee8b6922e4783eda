import LomiriApi.ResourcePtr.Conservation
import LomiriApi.ResourcePtr.Safety

/-!
# The copies of a deleter

Every `ResourcePtr` has a copy of a deleter, also while it holds nothing, and a deleter
may own something itself (a smart pointer, for instance). This module says what an
operation does to the copies.

- `Op.takesCopy`, `Op.dropsCopy`: the deleter that an operation copies, and the one whose
  copy is gone afterwards.
- `World.deleters f`: what the copies weigh together.
- `World.Effect`, `apply_effect`: the balance of the copies, and that an operation makes
  one deleter call at most.
- `apply_pairs`: the balance of the resources, for one operation.
-/

namespace LomiriApi

open Lib

variable {R D : Type}

/-- The deleter that an operation copies into an object. Constructors and move assignment
copy one; `swap` exchanges two, which copies none in the end. -/
def Op.takesCopy (w : World R D) : Op R D → Option D
  | .default _ d | .ofDeleter _ d | .ofResource _ d => some d
  | .moveConstruct r _ | .moveAssign _ r _ => (w.get r).map ResourcePtr.delete_
  | _ => none

/-- The deleter that is overwritten or destroyed. What it owns is given up at that point,
after the deleter call if there is one. -/
def Op.dropsCopy (w : World R D) : Op R D → Option D
  | .moveAssign this _ _ | .destroy this => (w.get this).map ResourcePtr.delete_
  | _ => none

namespace World

section Deleters

variable {M : Type} [AddCommMonoid M] (f : D → M)

/-- The weight of the deleter at an address. -/
def slotDeleter (o : Option (ResourcePtr R D)) : M := o.elim 0 fun p => f p.delete_

/-- What all copies of deleters weigh. With the number of references that a deleter owns as
its weight, this is the number of references owned by all of them. -/
def deleters (w : World R D) : M := total (slotDeleter f) w.objs

/-- Overwriting an object changes the weight by the difference of its deleters. -/
theorem deleters_put {w : World R D} {i : Nat} {p : ResourcePtr R D} (h : w.get i = some p)
    (q : ResourcePtr R D) : (w.put i q).deleters f + f p.delete_ = w.deleters f + f q.delete_ :=
  total_set (slotDeleter f) (get_eq_some.mp h) (some q)

theorem deleters_remove {w : World R D} {i : Nat} {p : ResourcePtr R D} (h : w.get i = some p) :
    (w.remove i).deleters f + f p.delete_ = w.deleters f :=
  (total_set (slotDeleter f) (get_eq_some.mp h) none).trans (add_zero _)

theorem deleters_construct (w : World R D) (p : ResourcePtr R D) :
    (w.construct p).deleters f = w.deleters f + f p.delete_ := by
  simp [deleters, construct, slotDeleter]

@[simp] theorem deleters_call (w : World R D) (c : Option (DeleterCall R D)) :
    (w.call c).deleters f = w.deleters f := rfl

end Deleters

/-- An object that keeps its deleter. -/
theorem deleters_put_same (f : D → Nat) {w : World R D} {i : Nat} {p q : ResourcePtr R D}
    (h : w.get i = some p) (hq : q.delete_ = p.delete_) :
    (w.put i q).deleters f = w.deleters f := by
  have hput := deleters_put f h q
  rw [hq] at hput
  exact Nat.add_right_cancel hput

/-- `reset(r)` leaves an object that holds `r`. -/
theorem reset_fst (p : ResourcePtr R D) (r : R) : (p.reset r).1 = ⟨r, p.delete_, true⟩ := by
  unfold ResourcePtr.reset
  cases p.initialized_ <;> rfl

theorem release_delete {p q : ResourcePtr R D} {r : R} (h : p.release = .ok (r, q)) :
    q.delete_ = p.delete_ := by
  unfold ResourcePtr.release at h
  cases hp : p.initialized_ with
  | false => simp [hp] at h
  | true =>
    simp only [hp, Bool.not_true, Bool.false_eq_true, if_false] at h
    obtain ⟨-, rfl⟩ := Prod.mk.inj (Except.ok.inj h)
    rfl

/-- What an operation does to the copies of deleters, and which calls it makes. -/
structure Effect (w w' : World R D) (op : Op R D) : Prop where
  /-- the copies afterwards and the one that is dropped are the copies before and the one
  that is taken -/
  copies : ∀ f : D → Nat, w'.deleters f + (op.dropsCopy w).elim 0 f
    = w.deleters f + (op.takesCopy w).elim 0 f
  /-- there is one deleter call at most -/
  calls : ∃ c : Option (DeleterCall R D), w'.calls = w.calls ++ c.toList

section Effect

variable {w w' : World R D} {op : Op R D}

/-- An operation that takes and drops no deleter. -/
theorem Effect.of_same (htakes : op.takesCopy w = none) (hdrops : op.dropsCopy w = none)
    (hcopies : ∀ f : D → Nat, w'.deleters f = w.deleters f) (c : Option (DeleterCall R D))
    (hcalls : w'.calls = w.calls ++ c.toList) : Effect w w' op where
  copies f := by rw [htakes, hdrops, hcopies f]
  calls := ⟨c, hcalls⟩

theorem no_calls (h : w'.calls = w.calls) :
    w'.calls = w.calls ++ (none : Option (DeleterCall R D)).toList :=
  h.trans (List.append_nil _).symm

/-- `swap` exchanges the deleters, so the weight of all is the same, and calls none. -/
theorem swap_effect {i j : Nat} {o : Outcome R} (htakes : op.takesCopy w = none)
    (hdrops : op.dropsCopy w = none) (h : w.swap i j = some (w', o)) : Effect w w' op := by
  obtain ⟨p, hp, h'⟩ := Option.bind_eq_some_iff.mp h
  obtain ⟨q, hq, -⟩ := Option.bind_eq_some_iff.mp h'
  by_cases hij : i = j
  · subst hij
    rw [swap_self hp] at h
    obtain ⟨rfl, -⟩ := Prod.mk.inj (Option.some.inj h)
    exact .of_same htakes hdrops (fun _ => rfl) none (no_calls rfl)
  · rw [swap_ne hp hq hij] at h
    obtain ⟨rfl, -⟩ := Prod.mk.inj (Option.some.inj h)
    refine .of_same htakes hdrops (fun f => ?_) none (no_calls rfl)
    have h₁ := deleters_put f hp q
    have h₂ := deleters_put f ((get_put_ne w hij q).trans hq) p
    omega

/-- Move assignment copies one deleter and overwrites another. The one that is overwritten
has been called before, if at all. -/
theorem moveAssign_effect {this r : Nat} {moved : R} {o : Outcome R}
    (h : w.apply false (.moveAssign this r moved) = some (w', o)) :
    Effect w w' (.moveAssign this r moved) := by
  obtain ⟨p, hp, h'⟩ := Option.bind_eq_some_iff.mp h
  obtain ⟨q, hq, -⟩ := Option.bind_eq_some_iff.mp h'
  have htakes : (Op.moveAssign this r moved).takesCopy w = some q.delete_ := by
    simp [Op.takesCopy, hq]
  have hdrops : (Op.moveAssign this r moved).dropsCopy w = some p.delete_ := by
    simp [Op.dropsCopy, hp]
  by_cases hij : this = r
  · subst hij
    obtain rfl := Option.some.inj (hp.symm.trans hq)
    rw [World.apply, moveAssign_self hp, Bool.and_false, if_neg Bool.false_ne_true] at h
    obtain ⟨rfl, -⟩ := Prod.mk.inj (Option.some.inj h)
    refine ⟨fun f => ?_, p.dealloc.2, rfl⟩
    have hput : (w.put this ⟨moved, p.delete_, false⟩).deleters f = w.deleters f :=
      deleters_put_same f hp rfl
    rw [htakes, hdrops, deleters_call, hput]
  · rw [World.apply, moveAssign_ne hp hq hij, Bool.and_false, if_neg Bool.false_ne_true] at h
    obtain ⟨rfl, -⟩ := Prod.mk.inj (Option.some.inj h)
    refine ⟨fun f => ?_, p.dealloc.2, rfl⟩
    have hput : ((w.put this q).put r ⟨moved, q.delete_, false⟩).deleters f
        = (w.put this q).deleters f :=
      deleters_put_same f ((get_put_ne w hij q).trans hq) rfl
    rw [htakes, hdrops, deleters_call, hput]
    exact deleters_put f hp q

/-- **One operation**, of deleters that do not throw. -/
theorem apply_effect {o : Outcome R} (h : w.apply false op = some (w', o)) :
    Effect w w' op := by
  cases op with
  | default stored d | ofDeleter stored d | ofResource stored d =>
    obtain ⟨rfl, -⟩ := Prod.mk.inj (Option.some.inj h)
    exact ⟨fun f => deleters_construct f w _, none, no_calls rfl⟩
  | moveConstruct r moved =>
    obtain ⟨q, hq, -⟩ := Option.bind_eq_some_iff.mp h
    rw [World.apply, moveConstruct_eq hq] at h
    obtain ⟨rfl, -⟩ := Prod.mk.inj (Option.some.inj h)
    refine ⟨fun f => ?_, none, no_calls rfl⟩
    have hput : (w.put r ⟨moved, q.delete_, false⟩).deleters f = w.deleters f :=
      deleters_put_same f hq rfl
    simp [Op.dropsCopy, Op.takesCopy, hq, deleters_construct, hput]
  | moveAssign this r moved => exact moveAssign_effect h
  | swap this other | freeSwap this other => exact swap_effect rfl rfl h
  | reset this r =>
    obtain ⟨p, hp, -⟩ := Option.bind_eq_some_iff.mp h
    rw [apply_reset hp] at h
    obtain ⟨rfl, -⟩ := Prod.mk.inj (Option.some.inj h)
    refine .of_same rfl rfl (fun f => deleters_put_same f hp ?_) _ rfl
    rw [reset_fst]
  | release this =>
    obtain ⟨p, hp, -⟩ := Option.bind_eq_some_iff.mp h
    rw [apply_release hp] at h
    cases hr : p.release with
    | error e =>
      rw [hr] at h
      obtain ⟨rfl, -⟩ := Prod.mk.inj (Option.some.inj h)
      exact .of_same rfl rfl (fun _ => rfl) none (no_calls rfl)
    | ok rq =>
      obtain ⟨r, q⟩ := rq
      rw [hr] at h
      obtain ⟨rfl, -⟩ := Prod.mk.inj (Option.some.inj h)
      exact .of_same rfl rfl (fun f => deleters_put_same f hp (release_delete hr)) none
        (no_calls rfl)
  | dealloc this =>
    obtain ⟨p, hp, -⟩ := Option.bind_eq_some_iff.mp h
    rw [apply_dealloc hp] at h
    obtain ⟨rfl, -⟩ := Prod.mk.inj (Option.some.inj h)
    exact .of_same rfl rfl (fun f => deleters_put_same f hp p.dealloc_delete) _ rfl
  | get this =>
    obtain ⟨p, hp, -⟩ := Option.bind_eq_some_iff.mp h
    rw [apply_get hp] at h
    obtain ⟨rfl, -⟩ := Prod.mk.inj (Option.some.inj h)
    exact .of_same rfl rfl (fun _ => rfl) none (no_calls rfl)
  | hasResource this =>
    obtain ⟨p, hp, h⟩ := Option.bind_eq_some_iff.mp h
    obtain ⟨rfl, -⟩ := Prod.mk.inj (Option.some.inj h)
    exact .of_same rfl rfl (fun _ => rfl) none (no_calls rfl)
  | destroy this =>
    obtain ⟨p, hp, -⟩ := Option.bind_eq_some_iff.mp h
    rw [apply_destroy hp] at h
    obtain ⟨rfl, -⟩ := Prod.mk.inj (Option.some.inj h)
    refine ⟨fun f => ?_, p.dealloc.2, rfl⟩
    simp only [Op.dropsCopy, Op.takesCopy, hp, Option.map_some, Option.elim_some,
      Option.elim_none, deleters_call]
    exact deleters_remove f hp

end Effect

/-! ## What moves -/

/-- The deleter calls that an operation has made. -/
def callsSince (w w' : World R D) : List (DeleterCall R D) := w'.calls.drop w.calls.length

theorem callsSince_eq {w w' : World R D} {c : Option (DeleterCall R D)}
    (h : w'.calls = w.calls ++ c.toList) : callsSince w w' = c.toList := by
  rw [callsSince, h, List.drop_left]

/-- **The balance of the pairs**: what is held afterwards, is disposed of and is handed out
is what was held and is handed in. -/
theorem apply_pairs {w w' : World R D} {op : Op R D} {o : Outcome R}
    {c : Option (DeleterCall R D)} (h : w.apply false op = some (w', o))
    (hc : w'.calls = w.calls ++ c.toList) :
    w'.heldPairs + pendingPair c + (op.handsOut w : Multiset (R × D))
      = w.heldPairs + (op.handsIn w : Multiset (R × D)) := by
  have hconserves := apply_conserves h
  have hdeleted : w'.deletedPairs = w.deletedPairs + pendingPair c := by
    rw [deletedPairs, hc, List.map_append, ← Multiset.coe_add]
    cases c <;> rfl
  rw [accounted, accounted, hdeleted] at hconserves
  refine add_right_cancel (b := w.deletedPairs) ?_
  calc w'.heldPairs + pendingPair c + (op.handsOut w : Multiset (R × D)) + w.deletedPairs
      = w'.heldPairs + (w.deletedPairs + pendingPair c) + (op.handsOut w : Multiset (R × D)) := by
        abel
    _ = w.heldPairs + (op.handsIn w : Multiset (R × D)) + w.deletedPairs := by
        rw [hconserves]
        abel

/-- What is handed in is held afterwards. -/
theorem mem_heldPairs_of_handsIn {w w' : World R D} {op : Op R D} {o : Outcome R}
    (h : w.apply false op = some (w', o)) {x : R × D} (hx : x ∈ op.handsIn w) :
    x ∈ w'.heldPairs := by
  cases op with
  | ofResource r d =>
    obtain ⟨rfl, -⟩ := Prod.mk.inj (Option.some.inj h)
    obtain rfl := List.mem_singleton.mp hx
    exact History.mem_heldPairs (get_construct_new w (.ofResource r d)) rfl
  | reset this r =>
    obtain ⟨p, hp, -⟩ := Option.bind_eq_some_iff.mp h
    rw [apply_reset hp] at h
    obtain ⟨rfl, -⟩ := Prod.mk.inj (Option.some.inj h)
    obtain rfl : x = (r, p.delete_) := by simpa [Op.handsIn, hp] using hx
    have hget : ((w.put this (p.reset r).1).call (p.reset r).2).get this
        = some ⟨r, p.delete_, true⟩ := (get_put_self hp _).trans (congrArg some (reset_fst p r))
    exact History.mem_heldPairs hget rfl
  | _ => cases hx

end World

end LomiriApi
