import LomiriApi.GObject.Basic
import LomiriApi.Lib.Ledger
import LomiriApi.Lib.Run

/-!
# Who owns which reference

- `GWorld.owners`: how many references to an object the smart pointers and C code
  own together.
- `InHand w p`: the accounts of `w` are in order, and one more reference, to `p`, is
  on its way from one owner to another. Every operation takes a reference in hand
  and puts it somewhere.
- `FullyOwned`: what is promised of the pointers.
- `fullyOwned_iff`: it holds in a run exactly if no C function stores a floating
  object through `assign_gobject`. `assign_gobject` wraps what was stored as it is,
  although `unique_gobject` and `share_gobject` refuse a floating object and
  `make_gobject` sinks it.
-/

namespace LomiriApi

open Lib

/-- The references to `o` that a pointer to `p` owns: one or none. The number lets owners
be counted by a sum over all pointers. -/
def refersTo (o : Nat) (p : Option Nat) : Nat := if p = some o then 1 else 0

@[simp] theorem refersTo_none (o : Nat) : refersTo o none = 0 := rfl

@[simp] theorem refersTo_self (o : Nat) : refersTo o (some o) = 1 := if_pos rfl

theorem refersTo_of_ne {o k : Nat} (h : k ≠ o) : refersTo k (some o) = 0 :=
  if_neg fun heq => h (Option.some.inj heq).symm

namespace GObject

/-- The counts of an object with `n` owned references. A floating object has one reference
more than owners, which nobody has taken. -/
structure Accounts (obj : GObject) (n : Nat) : Prop where
  refCount : obj.refCount = n + obj.floating.toNat
  taken : obj.taken = obj.unrefs + n

/-- A new object has one reference: a floating one that nobody owns, or one that is owned
by whoever made the object. -/
theorem accounts_new (initiallyUnowned : Bool) :
    (GObject.new initiallyUnowned).Accounts (if initiallyUnowned then 0 else 1) := by
  cases initiallyUnowned <;> exact ⟨rfl, rfl⟩

theorem Accounts.ref {obj : GObject} {n : Nat} (h : obj.Accounts n) : obj.ref.Accounts (n + 1) := by
  obtain ⟨hcount, htaken⟩ := h
  constructor
  · show obj.refCount + 1 = n + 1 + obj.floating.toNat
    omega
  · show obj.taken + 1 = obj.unrefs + (n + 1)
    omega

/-- `g_object_ref_sink` adds an owner as well. It takes the floating reference if there is
one, and a new one otherwise. -/
theorem Accounts.refSink {obj : GObject} {n : Nat} (h : obj.Accounts n) :
    obj.refSink.Accounts (n + 1) := by
  unfold GObject.refSink
  cases hfl : obj.floating with
  | false => exact h.ref
  | true =>
    obtain ⟨hcount, htaken⟩ := h
    rw [hfl] at hcount
    constructor
    · exact hcount
    · show obj.taken + 1 = obj.unrefs + (n + 1)
      omega

/-- Releasing a reference takes an owner away. There has to be one. -/
theorem Accounts.unref {obj : GObject} {n : Nat} (h : obj.Accounts (n + 1)) :
    obj.unref.Accounts n := by
  obtain ⟨hcount, htaken⟩ := h
  constructor
  · show obj.refCount - 1 = n + obj.floating.toNat
    omega
  · show obj.taken = obj.unrefs + 1 + n
    omega

theorem unref_floating (obj : GObject) : obj.unref.floating = obj.floating := rfl

/-- Sinking never makes an object float. -/
theorem floating_of_refSink {obj : GObject} (h : obj.refSink.floating = true) :
    obj.floating = true := by
  unfold GObject.refSink at h
  split at h
  · cases h
  · exact h

end GObject

namespace GWorld

/-- How many references to `o` are owned, by smart pointers and by C code together. -/
def owners (w : GWorld) (o : Nat) : Nat := total (refersTo o) w.ptrs + w.cRefs.count o

/-- **What is promised.** No pointer refers to a floating object, what has an owner is
not finalised, and every reference that was ever owned has been released once or
still has its owner. -/
structure FullyOwned (w : GWorld) : Prop where
  not_floating : ∀ o, some o ∈ w.ptrs → w.isFloating o = false
  not_finalised : ∀ o, some o ∈ w.ptrs ∨ o ∈ w.cRefs → w.isObject o = true
  released_once : ∀ o (obj : GObject), w.objs[o]? = some obj → obj.taken = obj.unrefs + w.owners o

/-- The accounts are in order, with a reference to `p` in hand. It is the invariant between
the two halves of an operation, where a reference has left one owner and not yet come to
the next. -/
structure InHand (w : GWorld) (p : Option Nat) : Prop where
  accounts : ∀ o (obj : GObject), w.objs[o]? = some obj → obj.Accounts (w.owners o + refersTo o p)
  known : ∀ o, w.objs[o]? = none → w.owners o + refersTo o p = 0
  settled : ∀ o, some o ∈ w.ptrs → w.isFloating o = false

/-! ## What has an owner exists -/

/-- What is pointed to has an owner. -/
theorem owners_pos {w : GWorld} {o : Nat} (h : some o ∈ w.ptrs ∨ o ∈ w.cRefs) :
    0 < w.owners o := by
  rcases h with hptr | hc
  · obtain ⟨rest, hrest⟩ := total_eq_add_of_mem (refersTo o) hptr
    rw [owners, hrest, refersTo_self]
    omega
  · have := List.count_pos_iff.mpr hc
    unfold owners
    omega

/-- An object with an owner, or with a reference in hand, is alive: its count cannot be
0. -/
theorem InHand.isObject {w : GWorld} {p : Option Nat} (h : InHand w p) {o : Nat}
    (ho : 0 < w.owners o + refersTo o p) : w.isObject o = true := by
  cases hget : w.objs[o]? with
  | none =>
    have := h.known o hget
    omega
  | some obj =>
    have := (h.accounts o obj hget).refCount
    rw [GWorld.isObject, hget, Option.any_some, decide_eq_true_eq]
    omega

/-- With nothing in hand, accounts that are in order give what is promised. -/
theorem InHand.fullyOwned {w : GWorld} (h : InHand w none) : FullyOwned w where
  not_floating := h.settled
  not_finalised := fun o ho => h.isObject (o := o) (by have := owners_pos ho; omega)
  released_once := fun o obj hget => (h.accounts o obj hget).taken

/-! ## Moving the reference in hand -/

/-- Only the owners change. -/
theorem InHand.transfer {w w' : GWorld} {p p' : Option Nat} (h : InHand w p)
    (hobjs : w'.objs = w.objs)
    (howners : ∀ o, w'.owners o + refersTo o p' = w.owners o + refersTo o p)
    (hsettled : ∀ o, some o ∈ w'.ptrs → w'.isFloating o = false) : InHand w' p' where
  accounts := fun o obj hget => howners o ▸ h.accounts o obj (hobjs ▸ hget)
  known := fun o hget => howners o ▸ h.known o (hobjs ▸ hget)
  settled := hsettled

/-- The reference in hand goes to the pointer `i`, and what that held comes into the
hand. -/
theorem InHand.exchange {w : GWorld} {p old : Option Nat} {i : Nat} (h : InHand w p)
    (hi : w.ptrs[i]? = some old) (hp : ∀ o, p = some o → w.isFloating o = false) :
    InHand { w with ptrs := w.ptrs.set i p } old := by
  refine h.transfer rfl (fun o => ?_) (fun o ho => ?_)
  · have := total_set (refersTo o) hi p
    simp only [owners]
    omega
  · rcases List.mem_or_eq_of_mem_set ho with hmem | heq
    · exact h.settled o hmem
    · exact hp o heq.symm

/-- It goes to a new pointer. -/
theorem InHand.wrap {w : GWorld} {p : Option Nat} (h : InHand w p)
    (hp : ∀ o, p = some o → w.isFloating o = false) :
    InHand { w with ptrs := w.ptrs ++ [p] } none := by
  refine h.transfer rfl (fun o => ?_) (fun o ho => ?_)
  · simp only [owners, total_append, total_cons, total_nil, refersTo_none]
    omega
  · rcases List.mem_append.mp ho with hmem | heq
    · exact h.settled o hmem
    · exact hp o (List.mem_singleton.mp heq).symm

/-- It goes to C code. -/
theorem InHand.toC {w : GWorld} {o : Nat} (h : InHand w (some o)) :
    InHand { w with cRefs := o :: w.cRefs } none := by
  refine h.transfer rfl (fun k => ?_) h.settled
  simp only [owners, List.count_cons, refersTo, beq_iff_eq, Option.some.injEq, reduceCtorEq,
    if_false]
  omega

/-- It comes from C code. -/
theorem InHand.fromC {w : GWorld} {o : Nat} (h : InHand w none) (ho : o ∈ w.cRefs) :
    InHand { w with cRefs := w.cRefs.erase o } (some o) := by
  refine h.transfer rfl (fun k => ?_) h.settled
  by_cases hk : k = o
  · subst hk
    have := List.count_pos_iff.mpr ho
    simp only [owners, List.count_erase_self, refersTo_self, refersTo_none]
    omega
  · simp only [owners, List.count_erase_of_ne hk, refersTo_of_ne hk, refersTo_none]

/-! ## Counting -/

theorem getElem?_update (w : GWorld) (o k : Nat) (f : GObject → GObject) :
    (w.update o f).objs[k]? = if o = k then (w.objs[k]?).map f else w.objs[k]? := by
  rw [update, List.getElem?_modify]
  split <;> simp

theorem isFloating_iff {w : GWorld} {o : Nat} :
    w.isFloating o = true ↔ ∃ obj, w.objs[o]? = some obj ∧ obj.floating = true := by
  rw [isFloating, Option.any_eq_true]

/-- What counting does to the reference in hand. It makes no object floating. -/
theorem InHand.update {w : GWorld} {p p' : Option Nat} {o : Nat} {f : GObject → GObject}
    (h : InHand w p) (ho : w.isObject o = true)
    (hf : ∀ obj, obj.Accounts (w.owners o + refersTo o p) →
      (f obj).Accounts (w.owners o + refersTo o p'))
    (hfl : ∀ obj, (f obj).floating = true → obj.floating = true)
    (hp : ∀ k, k ≠ o → refersTo k p' = refersTo k p) : InHand (w.update o f) p' where
  accounts := by
    intro k obj hget
    rw [getElem?_update] at hget
    show obj.Accounts (w.owners k + refersTo k p')
    split at hget
    case isTrue hk =>
      subst hk
      obtain ⟨obj₀, hget₀, rfl⟩ := Option.map_eq_some_iff.mp hget
      exact hf obj₀ (h.accounts o obj₀ hget₀)
    case isFalse hk =>
      rw [hp k (Ne.symm hk)]
      exact h.accounts k obj hget
  known := by
    intro k hget
    rw [getElem?_update] at hget
    show w.owners k + refersTo k p' = 0
    split at hget
    case isTrue hk =>
      subst hk
      rw [GWorld.isObject, Option.map_eq_none_iff.mp hget] at ho
      cases ho
    case isFalse hk =>
      rw [hp k (Ne.symm hk)]
      exact h.known k hget
  settled := by
    intro k hk
    refine Bool.eq_false_iff.mpr fun hfloat => ?_
    obtain ⟨obj, hget, hobj⟩ := isFloating_iff.mp hfloat
    rw [getElem?_update] at hget
    have : w.isFloating k = true := by
      rw [isFloating_iff]
      split at hget
      · obtain ⟨obj₀, hget₀, rfl⟩ := Option.map_eq_some_iff.mp hget
        exact ⟨obj₀, hget₀, hfl obj₀ hobj⟩
      · exact ⟨obj, hget, hobj⟩
    rw [h.settled k hk] at this
    cases this

/-- `g_object_ref` and `g_object_ref_sink` by C code. -/
theorem InHand.take {w : GWorld} {o : Nat} (h : InHand w none) (ho : w.isObject o = true)
    {f : GObject → GObject} (hf : f = GObject.ref ∨ f = GObject.refSink) :
    InHand (w.update o f) (some o) := by
  refine h.update ho (fun obj hobj => ?_) (fun obj hobj => ?_) (fun k hk => refersTo_of_ne hk)
  · rw [refersTo_none, Nat.add_zero] at hobj
    rw [refersTo_self]
    rcases hf with rfl | rfl
    · exact hobj.ref
    · exact hobj.refSink
  · rcases hf with rfl | rfl
    · exact hobj
    · exact GObject.floating_of_refSink hobj

/-- `g_object_unref`. -/
theorem InHand.release {w : GWorld} {o : Nat} (h : InHand w (some o)) :
    InHand (w.update o GObject.unref) none := by
  have ho : w.isObject o = true := h.isObject (o := o) (by rw [refersTo_self]; omega)
  refine h.update ho (fun obj hobj => ?_) (fun obj hobj => hobj)
    (fun k hk => (refersTo_of_ne hk).symm)
  rw [refersTo_self] at hobj
  exact hobj.unref

/-- The deleter releases the reference in hand. -/
theorem InHand.deleter {w : GWorld} {p : Option Nat} (h : InHand w p) :
    InHand (w.deleter p) none := by
  cases p with
  | none => exact h
  | some o =>
    have ho : w.isObject o = true := h.isObject (o := o) (by rw [refersTo_self]; omega)
    rw [GWorld.deleter, if_pos ho]
    exact h.release

/-- A new object: its reference is floating, or in hand. -/
theorem InHand.new {w : GWorld} (h : InHand w none) (obj : GObject) (p : Option Nat)
    (hp : ∀ k, k ≠ w.objs.length → refersTo k p = 0)
    (hobj : obj.Accounts (refersTo w.objs.length p)) :
    InHand { w with objs := w.objs ++ [obj] } p := by
  have hfresh : w.owners w.objs.length = 0 :=
    h.known _ (List.getElem?_eq_none (Nat.le_refl _))
  have hold : ∀ k, k ≠ w.objs.length → (w.objs ++ [obj])[k]? = w.objs[k]? := by
    intro k hk
    rw [List.getElem?_append]
    split
    · rfl
    · rw [List.getElem?_eq_none (by simp only [List.length_singleton]; omega),
        List.getElem?_eq_none (by omega)]
  have hnew : (w.objs ++ [obj])[w.objs.length]? = some obj := by simp
  constructor
  · intro k obj' hget
    show obj'.Accounts (w.owners k + refersTo k p)
    by_cases hk : k = w.objs.length
    · subst hk
      obtain rfl : obj = obj' := Option.some.inj (hnew.symm.trans hget)
      rw [hfresh, Nat.zero_add]
      exact hobj
    · rw [hp k hk]
      exact h.accounts k obj' ((hold k hk).symm.trans hget)
  · intro k hget
    show w.owners k + refersTo k p = 0
    by_cases hk : k = w.objs.length
    · subst hk
      cases hnew.symm.trans hget
    · rw [hp k hk]
      exact h.known k ((hold k hk).symm.trans hget)
  · intro k hk
    have hne : k ≠ w.objs.length := by
      rintro rfl
      have := owners_pos (w := w) (Or.inl hk)
      omega
    show ((w.objs ++ [obj])[k]?).any GObject.floating = false
    rw [hold k hne]
    exact h.settled k hk

/-! ## Steps and runs -/

/-- The condition on a step: no C function stores a floating object through
`assign_gobject`. -/
def StoresNoFloating (w : GWorld) (op : GOp) : Prop :=
  ∀ i o, op = .assignGobject i (some o) → w.isFloating o = false

/-- A wrapping helper that returns was not given a floating object. -/
theorem not_floating_of_wrap {w w' : GWorld} {o : Nat} (ho : w.isObject o = true)
    (h : w.wrapGobject (some o) = .ok w') : w.isFloating o = false := by
  cases hfl : w.isFloating o with
  | false => rfl
  | true => cases (wrapGobject_floating ho hfl).symm.trans h

/-- A wrapping helper moves a reference of C code into a new smart pointer. If it throws,
the reference stays where it was. -/
theorem InHand.handOver {w w' : GWorld} {ptr : Option Nat} (h : InHand w none)
    (hstep : w.handOver ptr (w.wrapGobject ptr) = some w') : InHand w' none := by
  cases hwrap : w.wrapGobject ptr with
  | error e =>
    rw [hwrap] at hstep
    obtain rfl : w = w' := Option.some.inj hstep
    exact h
  | ok w₁ =>
    rw [hwrap] at hstep
    obtain rfl := wrapGobject_ok hwrap
    cases ptr with
    | none =>
      obtain rfl := Option.some.inj hstep
      exact h.wrap fun o ho => nomatch ho
    | some o =>
      rw [GWorld.handOver] at hstep
      split at hstep
      case isFalse => cases hstep
      case isTrue ho =>
        obtain rfl := Option.some.inj hstep
        have hobj : w.isObject o = true := h.fullyOwned.not_finalised o (Or.inr ho)
        have hfl : w.isFloating o = false := not_floating_of_wrap hobj hwrap
        refine (h.fromC ho).wrap fun k hk => ?_
        obtain rfl := Option.some.inj hk
        exact hfl

/-- `reset` exchanges the pointer for a null pointer, which leaves its reference in hand,
and the deleter releases that. -/
theorem InHand.reset {w w' : GWorld} {i : Nat} (h : InHand w none)
    (hstep : w.reset i = some w') : InHand w' none := by
  unfold GWorld.reset at hstep
  split at hstep
  case h_1 old hi =>
    obtain rfl := Option.some.inj hstep
    exact (h.exchange hi fun o ho => nomatch ho).deleter
  case h_2 => cases hstep

/-- What a C function stores, if it is not floating, is one of its own references. -/
theorem InHand.handOut {w w' : GWorld} {ptr : Option Nat} (h : InHand w none)
    (hptr : ∀ o, ptr = some o → w.isFloating o = false) (hstep : w.handOut ptr = some w') :
    InHand w' ptr ∧ ∀ o, ptr = some o → w'.isFloating o = false := by
  cases ptr with
  | none =>
    obtain rfl := Option.some.inj hstep
    exact ⟨h, hptr⟩
  | some o =>
    rw [GWorld.handOut, hptr o rfl, if_neg Bool.false_ne_true] at hstep
    split at hstep
    case isTrue ho =>
      obtain rfl := Option.some.inj hstep
      exact ⟨h.fromC ho, hptr⟩
    case isFalse => cases hstep

/-- `assign_gobject` stores what the C function wrote and releases what was there before.
It does not look whether the new object floats, which is why that has to be assumed. -/
theorem InHand.assignGobject {w w' : GWorld} {i : Nat} {ptr : Option Nat} (h : InHand w ptr)
    (hptr : ∀ o, ptr = some o → w.isFloating o = false)
    (hstep : w.assignGobject i ptr = some w') : InHand w' none := by
  unfold GWorld.assignGobject at hstep
  split at hstep
  case h_1 old hi =>
    obtain rfl := Option.some.inj hstep
    exact (h.exchange hi hptr).deleter
  case h_2 => cases hstep

/-- What comes into the hand from a pointer is not floating. -/
theorem InHand.takeOut {w : GWorld} {i : Nat} {p : Option Nat} (h : InHand w none)
    (hi : w.ptrs[i]? = some p) :
    InHand { w with ptrs := w.ptrs.set i none } p ∧
      ∀ o, p = some o → w.isFloating o = false := by
  refine ⟨h.exchange hi fun o ho => (nomatch ho), ?_⟩
  rintro o rfl
  exact h.settled o (List.mem_of_getElem? hi)

/-- One step keeps the accounts in order. -/
theorem InHand.step {w w' : GWorld} {op : GOp} (h : InHand w none)
    (hstep : w.step op = some w') (hop : StoresNoFloating w op) : InHand w' none := by
  have hother : ∀ k, k ≠ w.objs.length → refersTo k (some w.objs.length) = 0 :=
    fun k hk => refersTo_of_ne hk
  cases op with
  | newObject initiallyUnowned =>
    obtain rfl := Option.some.inj hstep
    cases initiallyUnowned with
    | false =>
      have hacc : (GObject.new false).Accounts (refersTo w.objs.length (some w.objs.length)) := by
        rw [refersTo_self]
        exact GObject.accounts_new false
      exact (h.new (GObject.new false) (some w.objs.length) hother hacc).toC
    | true => exact h.new (GObject.new true) none (fun _ _ => rfl) (GObject.accounts_new true)
  | ref o =>
    rw [GWorld.step] at hstep
    split at hstep
    case isTrue ho =>
      obtain rfl := Option.some.inj hstep
      exact (h.take ho (Or.inl rfl)).toC
    case isFalse => cases hstep
  | refSink o =>
    rw [GWorld.step] at hstep
    split at hstep
    case isTrue ho =>
      obtain rfl := Option.some.inj hstep
      exact (h.take ho (Or.inr rfl)).toC
    case isFalse => cases hstep
  | unref o =>
    rw [GWorld.step] at hstep
    split at hstep
    case isTrue ho =>
      obtain rfl := Option.some.inj hstep
      exact (h.fromC ho).release
    case isFalse => cases hstep
  | makeGobject initiallyUnowned =>
    obtain rfl := Option.some.inj ((makeGobject_eq w initiallyUnowned).symm.trans hstep)
    have hacc : (⟨1, false, 1, 0⟩ : GObject).Accounts
        (refersTo w.objs.length (some w.objs.length)) := by
      rw [refersTo_self]
      exact GObject.accounts_new false
    refine (h.new ⟨1, false, 1, 0⟩ (some w.objs.length) hother hacc).wrap fun k hk => ?_
    obtain rfl := Option.some.inj hk
    simp [isFloating]
  | uniqueGobject ptr => exact h.handOver hstep
  | shareGobject ptr => exact h.handOver hstep
  | assignGobject i ptr =>
    obtain ⟨w₁, hout, hassign⟩ := Option.bind_eq_some_iff.mp hstep
    have hptr : ∀ o, ptr = some o → w.isFloating o = false := fun o ho => hop i o (ho ▸ rfl)
    obtain ⟨h₁, hptr₁⟩ := h.handOut hptr hout
    exact h₁.assignGobject hptr₁ hassign
  | moveConstruct i =>
    rw [GWorld.step] at hstep
    split at hstep
    case h_1 p hi =>
      obtain rfl := Option.some.inj hstep
      obtain ⟨h₁, hp⟩ := h.takeOut hi
      exact h₁.wrap hp
    case h_2 => cases hstep
  | moveAssign i j =>
    rw [GWorld.step] at hstep
    split at hstep
    case h_1 p hi =>
      obtain ⟨h₁, hp⟩ := h.takeOut hi
      dsimp only at hstep
      split at hstep
      case h_1 old hj =>
        obtain rfl := Option.some.inj hstep
        exact (h₁.exchange hj hp).deleter
      case h_2 => cases hstep
    case h_2 => cases hstep
  | reset i => exact h.reset hstep
  | destroy i => exact h.reset hstep

/-- Counting that leaves the flag alone. -/
theorem isFloating_update {w : GWorld} {o : Nat} {f : GObject → GObject}
    (hf : ∀ obj, (f obj).floating = obj.floating) (k : Nat) :
    (w.update o f).isFloating k = w.isFloating k := by
  rw [isFloating, isFloating, getElem?_update]
  split
  · cases w.objs[k]? with
    | none => rfl
    | some obj => exact hf obj
  · rfl

/-- The deleter makes no object float, nor sinks one. -/
theorem isFloating_deleter (w : GWorld) (p : Option Nat) (k : Nat) :
    (w.deleter p).isFloating k = w.isFloating k := by
  cases p with
  | none => rfl
  | some o =>
    rw [deleter]
    split
    · exact isFloating_update GObject.unref_floating k
    · rfl

/-- The deleter does not touch the pointers; the member function does. -/
theorem deleter_ptrs (w : GWorld) (p : Option Nat) : (w.deleter p).ptrs = w.ptrs := by
  cases p with
  | none => rfl
  | some o =>
    rw [deleter]
    split <;> rfl

/-- A floating object that a C function stores is adopted, still floating. -/
theorem adopted_floating {w w' : GWorld} {i o : Nat} (hfl : w.isFloating o = true)
    (hstep : w.step (.assignGobject i (some o)) = some w') :
    some o ∈ w'.ptrs ∧ w'.isFloating o = true := by
  obtain ⟨w₁, hout, hassign⟩ := Option.bind_eq_some_iff.mp hstep
  rw [handOut, if_pos hfl] at hout
  split at hout
  case isFalse => cases hout
  case isTrue =>
    obtain rfl := Option.some.inj hout
    unfold GWorld.assignGobject at hassign
    split at hassign
    case h_2 => cases hassign
    case h_1 old hi =>
      obtain rfl := Option.some.inj hassign
      obtain ⟨hlt, -⟩ := List.getElem?_eq_some_iff.mp hi
      rw [deleter_ptrs, isFloating_deleter]
      refine ⟨List.mem_set hlt _, ?_⟩
      exact (isFloating_update (f := GObject.adopt) (fun _ => rfl) o).trans hfl

/-- No objects yet. -/
def start : GWorld := ⟨[], [], []⟩

theorem start_inHand : InHand start none :=
  ⟨fun _ _ h => (nomatch h), fun _ _ => rfl, fun _ h => (nomatch h)⟩

/-- **The smart pointers own full references** in every state of a run exactly if no C
function of the run stores a floating object through `assign_gobject`. The wrapping
helpers refuse such an object and leave it as it is; `make_gobject` always returns. -/
theorem fullyOwned_iff (ops : List GOp) :
    (Always step FullyOwned start ops ↔ Meets step StoresNoFloating start ops) ∧
    (∀ (w : GWorld) (o : Nat), w.isObject o = true → w.isFloating o = true →
      w.uniqueGobject (some o) = .error floatingMessage ∧
      w.shareGobject (some o) = .error floatingMessage ∧
      w.step (.uniqueGobject (some o)) = some w ∧ w.step (.shareGobject (some o)) = some w) ∧
    ∀ w initiallyUnowned, (makeGobject w initiallyUnowned).isSome = true := by
  refine ⟨?_, fun w o hobj hfl => ?_, fun w initiallyUnowned => ?_⟩
  · refine always_iff_meets (I := fun w => InHand w none) ?_ ?_ ?_ start_inHand
    · exact fun w op w' h hstep hop => h.step hstep hop
    · exact fun w h => h.fullyOwned
    · rintro w op w' - hstep hP i o rfl
      refine Bool.eq_false_iff.mpr fun hfl => ?_
      obtain ⟨hmem, hfl'⟩ := adopted_floating hfl hstep
      rw [hP.not_floating o hmem] at hfl'
      cases hfl'
  · have hunique : w.uniqueGobject (some o) = .error floatingMessage :=
      wrapGobject_floating hobj hfl
    have hshare : w.shareGobject (some o) = .error floatingMessage := wrapGobject_floating hobj hfl
    refine ⟨hunique, hshare, ?_, ?_⟩
    · rw [step, hunique]
      rfl
    · rw [step, hshare]
      rfl
  · rw [makeGobject_eq]
    rfl

/-- A floating object is refused, sunk, wrapped, and replaced through
`assign_gobject` by a null pointer. -/
def sinkFirst : List GOp :=
  [.newObject true, .uniqueGobject (some 0), .refSink 0, .uniqueGobject (some 0),
    .assignGobject 0 none]

/-- An object that is sunk before it is stored is owned as promised, and `unique_gobject`
refuses the floating one. -/
theorem fullyOwned_iff_sinkFirst :
    Always step FullyOwned start sinkFirst ∧
      uniqueGobject ⟨[GObject.new true], [], []⟩ (some 0) = .error floatingMessage := by
  obtain ⟨hruns, hrefuses, -⟩ := fullyOwned_iff sinkFirst
  refine ⟨hruns.mpr fun pre op hpre w w' _ _ i o hop => ?_,
    (hrefuses ⟨[GObject.new true], [], []⟩ 0 rfl rfl).1⟩
  have hmem : op ∈ sinkFirst := hpre.subset (List.mem_append_right pre (List.mem_singleton_self op))
  subst hop
  exact absurd hmem (by simp [sinkFirst])

/-- A C function stores a floating object, and later other C code sinks and releases
it. -/
def floatingStored : List GOp :=
  [.newObject true, .uniqueGobject none, .assignGobject 0 (some 0), .refSink 0, .unref 0]

/-- Stored while it floats, the object is taken for owned. The next one to sink it and give
it back finalises it under the pointer. -/
theorem fullyOwned_fails_floatingStored :
    (∃ w, run step start floatingStored = some w ∧ some 0 ∈ w.ptrs ∧ w.isObject 0 = false) ∧
      ¬ ∀ ops, Always step FullyOwned start ops := by
  have hrun : run step start floatingStored = some ⟨[⟨0, false, 2, 1⟩], [some 0], []⟩ := rfl
  refine ⟨⟨_, hrun, by decide, rfl⟩, fun hall => ?_⟩
  have howned := hall floatingStored floatingStored (List.prefix_refl _) _ hrun
  have hobj := howned.not_finalised 0 (Or.inl (by decide))
  exact absurd hobj (by decide)

end GWorld

end LomiriApi
