import LomiriApi.Lib.Run
import Mathlib.Data.List.Nodup
import Mathlib.Data.List.Range
import Mathlib.Data.List.Perm.Basic

/-!
# Assigners for smart pointers (GlibMemory.h, GObjectMemory.h)

`assign_glib` and `assign_gobject` return an assigner for a smart pointer. A C
function stores a pointer through it, and its destructor hands that pointer to the
smart pointer.

- `GlibAssigner` and `GObjectAssigner` differ only in the deleter that they give to
  the smart pointer (`AssignerClass.deleter`).
- `AssignerWorld.step`: assigners are made, moved, stored through and destroyed.
- `IsChain`: each assigner is constructed from the one before, a C function stores
  through the last one, and all are destroyed in some order.

The move constructor takes what is stored, but leaves the reference to the smart
pointer. The destructor of the moved-from assigner still assigns through it, so the
last one of a chain has to be destroyed last (`AssignerWorld.assigned_iff`).
-/

namespace LomiriApi

open Lib

variable {A : Type}

/-! ## Smart pointers -/

/-- `GlibDeleter`: the values that it frees, which is none for a null pointer. -/
def glibDeleter (ptr : Option A) : List A :=
  match ptr with
  | some a => [a]
  | none => []

/-- `G_IS_OBJECT`, for a pointer that is null or holds a reference. -/
def gIsObject (ptr : Option A) : Bool := ptr.isSome

/-- `GObjectDeleter`: the references that it releases. -/
def gobjectDeleter (ptr : Option A) : List A := if gIsObject ptr then ptr.toList else []

/-- The two class templates, which differ in the deleter only. -/
inductive AssignerClass where
  | glib
  | gobject
deriving DecidableEq, Repr

/-- The deleter that the destructor passes to the smart pointer. -/
def AssignerClass.deleter : AssignerClass → Option A → List A
  | glib => glibDeleter
  | gobject => gobjectDeleter

theorem AssignerClass.deleter_eq (c : AssignerClass) (ptr : Option A) :
    c.deleter ptr = ptr.toList := by
  cases c <;> cases ptr <;> rfl

/-- A `unique_ptr` or `shared_ptr`. `others` is the number of other shared pointers that
own the same value; it is 0 for a unique pointer. With others left, nothing is freed. -/
structure SmartPtr (A : Type) where
  ptr : Option A
  others : Nat
deriving DecidableEq, Repr

/-- What is freed when the smart pointer gives up its value. -/
def SmartPtr.release (c : AssignerClass) (s : SmartPtr A) : List A :=
  if s.others = 0 then c.deleter s.ptr else []

/-! ## Assigners -/

/-- `GlibAssigner` and `GObjectAssigner`. The reference `smart_ptr_` is given by
number. -/
structure Assigner (A : Type) where
  ptr_ : Option A
  smart_ptr_ : Nat
deriving DecidableEq, Repr

/-- The constructor, and so what `assign_glib` and `assign_gobject` return. -/
def Assigner.new (smart_ptr : Nat) : Assigner A := ⟨none, smart_ptr⟩

/-- The move constructor: the new assigner, and what becomes of `other`. The reference to
the smart pointer is copied, so the destructor of `other` still assigns through it. -/
def Assigner.move (other : Assigner A) : Assigner A × Assigner A :=
  (⟨other.ptr_, other.smart_ptr_⟩, { other with ptr_ := none })

structure AssignerWorld (A : Type) where
  ptrs : List (SmartPtr A)
  /-- in the order in which they were constructed; `none` once destroyed -/
  assigners : List (Option (Assigner A))
  /-- what the deleters have freed -/
  freed : List A
deriving DecidableEq, Repr

/-- What the program does. Smart pointers and assigners are given by number. -/
inductive AssignerOp (A : Type) where
  | assign (i : Nat)
  | moveConstruct (k : Nat)
  /-- a C function stores `p` through the conversion operator -/
  | store (k : Nat) (p : Option A)
  | destroy (k : Nat)
deriving DecidableEq, Repr

/-- The assigner that is destroyed. -/
def AssignerOp.destroyed? : AssignerOp A → Option Nat
  | destroy k => some k
  | _ => none

namespace AssignerWorld

/-- The assigner `k`, unless it has been destroyed. -/
def alive (w : AssignerWorld A) (k : Nat) : Option (Assigner A) := (w.assigners[k]?).join

/-- One operation; `none` if the program may not do it. -/
def step (c : AssignerClass) (w : AssignerWorld A) : AssignerOp A → Option (AssignerWorld A)
  | .assign i =>
    if i < w.ptrs.length then some { w with assigners := w.assigners ++ [some (Assigner.new i)] }
    else none
  | .moveConstruct k => (w.alive k).map fun other =>
    { w with assigners := w.assigners.set k (some other.move.2) ++ [some other.move.1] }
  | .store k p => (w.alive k).map fun a =>
    { w with assigners := w.assigners.set k (some { a with ptr_ := p }) }
  | .destroy k => (w.alive k).bind fun a => (w.ptrs[a.smart_ptr_]?).map fun s =>
    -- `smart_ptr_ = SP(ptr_, Deleter())`, always
    { ptrs := w.ptrs.set a.smart_ptr_ ⟨a.ptr_, 0⟩
      assigners := w.assigners.set k none
      freed := w.freed ++ s.release c }

end AssignerWorld

/-- A chain of `n + 1` assigners for the smart pointer `i`. The steps `pre` come before the
C function stores through the last one; the assigners `ks` are destroyed after that, in
this order. Without copy elision there is one for each return by value. -/
structure IsChain (i n : Nat) (pre : List (AssignerOp A)) (ks : List Nat) : Prop where
  /-- each assigner is constructed from the one before -/
  constructs : pre.filter (·.destroyed?.isNone) = .assign i :: (List.range n).map .moveConstruct
  /-- all are destroyed, each once -/
  destroys : (pre.filterMap (·.destroyed?) ++ ks).Perm (List.range (n + 1))
  last : n ∈ ks

/-- The smart pointer `i`, which was `s` before, owns exactly `p`. What it owned has
been freed once, if nobody else owns it; nothing else has been freed, so `p` has
not. -/
structure Assigned (c : AssignerClass) (i : Nat) (p : Option A) (s : SmartPtr A)
    (w w' : AssignerWorld A) : Prop where
  owns : w'.ptrs[i]? = some ⟨p, 0⟩
  freed : w'.freed = w.freed ++ s.release c

/-! ## Values that are assigned one after the other -/

/-- A smart pointer, and what has been freed, after the values `vs` have been assigned to
it. It is what the destructors of a chain come to. -/
def assignAll (c : AssignerClass) : SmartPtr A → List A → List (Option A) → SmartPtr A × List A
  | s, freed, [] => (s, freed)
  | s, freed, v :: vs => assignAll c ⟨v, 0⟩ (freed ++ s.release c) vs

theorem assignAll_append (c : AssignerClass) (s : SmartPtr A) (freed : List A)
    (us vs : List (Option A)) :
    assignAll c s freed (us ++ vs) =
      assignAll c (assignAll c s freed us).1 (assignAll c s freed us).2 vs := by
  induction us generalizing s freed with
  | nil => rfl
  | cons u us ih => exact ih ⟨u, 0⟩ (freed ++ s.release c)

theorem release_owned (c : AssignerClass) (p : Option A) :
    SmartPtr.release c ⟨p, 0⟩ = p.toList := by
  rw [SmartPtr.release, if_pos rfl, c.deleter_eq]

/-- Null pointers that are assigned first make no difference: the old value is freed
once. -/
theorem assignAll_nulls_value (c : AssignerClass) (s : SmartPtr A) (freed : List A) {us}
    (hus : ∀ u ∈ us, u = none) (p : Option A) :
    assignAll c s freed (us ++ [p]) = (⟨p, 0⟩, freed ++ s.release c) := by
  induction us generalizing s freed with
  | nil => rfl
  | cons u us ih =>
    obtain rfl := hus u List.mem_cons_self
    show assignAll c ⟨none, 0⟩ (freed ++ s.release c) (us ++ [p]) = _
    rw [ih _ _ fun u hu => hus u (List.mem_cons_of_mem _ hu), release_owned, Option.toList_none,
      List.append_nil]

/-- A null pointer that is assigned later frees the value. -/
theorem assignAll_value_nulls (c : AssignerClass) (p : Option A) (freed : List A) {us}
    (hus : ∀ u ∈ us, u = none) (hne : us ≠ []) :
    assignAll c ⟨p, 0⟩ freed us = (⟨none, 0⟩, freed ++ p.toList) := by
  induction us generalizing p freed with
  | nil => exact absurd rfl hne
  | cons u us ih =>
    obtain rfl := hus u List.mem_cons_self
    show assignAll c ⟨none, 0⟩ (freed ++ SmartPtr.release c ⟨p, 0⟩) us = _
    rw [release_owned]
    by_cases hnil : us = []
    · rw [hnil]
      rfl
    · rw [ih none _ (fun u hu => hus u (List.mem_cons_of_mem _ hu)) hnil, Option.toList_none,
        List.append_nil]

/-! ## The order of a chain -/

/-- The last assigner is destroyed once. -/
theorem IsChain.mem_split {i n : Nat} {pre : List (AssignerOp A)} {ks₁ ks₂ : List Nat}
    (h : IsChain i n pre (ks₁ ++ n :: ks₂)) : n ∉ ks₁ ∧ n ∉ ks₂ := by
  have hnodup : (ks₁ ++ n :: ks₂).Nodup :=
    (List.nodup_append.mp (h.destroys.nodup_iff.mpr List.nodup_range)).2.1
  have hmem := (List.nodup_cons.mp (List.nodup_middle.mp hnodup)).1
  exact ⟨fun hn => hmem (List.mem_append_left _ hn), fun hn => hmem (List.mem_append_right _ hn)⟩

/-- Only one of the assigners hands over a value. -/
theorem map_values {n : Nat} {ks : List Nat} (p : Option A) (h : n ∉ ks) :
    ∀ u ∈ ks.map fun k => if k = n then p else none, u = none := by
  intro u hu
  obtain ⟨k, hk, rfl⟩ := List.mem_map.mp hu
  exact if_neg fun heq : k = n => h (heq ▸ hk)

/-! ## What an assigner holds -/

namespace AssignerWorld

variable {c : AssignerClass}

/-- All assigners are for the smart pointer `i`, and only `n` may hold something, which is
`v`. It is the invariant of a chain. -/
def Holds (i n : Nat) (v : Option A) (w : AssignerWorld A) : Prop :=
  ∀ k a, w.alive k = some a → a = ⟨if k = n then v else none, i⟩

theorem join_getElem?_set {β : Type} {l : List (Option β)} {k j : Nat} {x : Option β} {b : β}
    (h : ((l.set k x)[j]?).join = some b) :
    j = k ∧ x = some b ∨ j ≠ k ∧ (l[j]?).join = some b := by
  rw [List.getElem?_set] at h
  by_cases hj : k = j
  · subst hj
    rw [if_pos rfl] at h
    split at h
    · exact .inl ⟨rfl, h⟩
    · cases h
  · rw [if_neg hj] at h
    exact .inr ⟨fun heq => hj heq.symm, h⟩

theorem join_getElem?_append {β : Type} {l : List (Option β)} {j : Nat} {x : Option β} {b : β}
    (h : ((l ++ [x])[j]?).join = some b) : (l[j]?).join = some b ∨ x = some b := by
  rw [List.getElem?_append] at h
  split at h
  · exact .inl h
  · rw [List.getElem?_singleton] at h
    split at h
    · exact .inr h
    · cases h

/-- A destructor hands over what its assigner holds. -/
theorem destroy_spec {i n k : Nat} {v : Option A} {s : SmartPtr A} {w w' : AssignerWorld A}
    (hw : Holds i n v w) (hs : w.ptrs[i]? = some s) (h : step c w (.destroy k) = some w') :
    Holds i n v w' ∧ w'.ptrs[i]? = some ⟨if k = n then v else none, 0⟩ ∧
      w'.freed = w.freed ++ s.release c := by
  obtain ⟨a, ha, h⟩ := Option.bind_eq_some_iff.mp h
  obtain rfl := hw k a ha
  obtain ⟨s', hs', rfl⟩ := Option.map_eq_some_iff.mp h
  obtain rfl := Option.some.inj (hs.symm.trans hs')
  obtain ⟨hi, -⟩ := List.getElem?_eq_some_iff.mp hs
  refine ⟨fun j b hb => ?_, ?_, rfl⟩
  · rcases join_getElem?_set hb with ⟨-, hnone⟩ | ⟨-, hb⟩
    · cases hnone
    · exact hw j b hb
  · show (w.ptrs.set i _)[i]? = _
    rw [List.getElem?_set_self hi]

/-- Assigners that hold nothing are made from such. -/
theorem construct_spec {i n : Nat} {w w' : AssignerWorld A} {op : AssignerOp A}
    (hw : Holds i n none w) (h : step c w op = some w')
    (hop : op = .assign i ∨ ∃ k, op = .moveConstruct k) :
    Holds i n none w' ∧ w'.ptrs = w.ptrs ∧ w'.freed = w.freed := by
  simp only [Holds, ite_self] at hw ⊢
  rcases hop with rfl | ⟨k, rfl⟩
  · simp only [step] at h
    split at h
    · obtain rfl := Option.some.inj h
      refine ⟨fun j b hb => ?_, rfl, rfl⟩
      rcases join_getElem?_append hb with hb | hb
      · exact hw j b hb
      · exact (Option.some.inj hb).symm
    · cases h
  · obtain ⟨a, ha, rfl⟩ := Option.map_eq_some_iff.mp h
    obtain rfl := hw k a ha
    refine ⟨fun j b hb => ?_, rfl, rfl⟩
    rcases join_getElem?_append hb with hb | hb
    · rcases join_getElem?_set hb with ⟨-, hb⟩ | ⟨-, hb⟩
      · exact (Option.some.inj hb).symm
      · exact hw j b hb
    · exact (Option.some.inj hb).symm

theorem store_spec {i n : Nat} {p : Option A} {w w' : AssignerWorld A} (hw : Holds i n none w)
    (h : step c w (.store n p) = some w') :
    Holds i n p w' ∧ w'.ptrs = w.ptrs ∧ w'.freed = w.freed := by
  obtain ⟨a, ha, rfl⟩ := Option.map_eq_some_iff.mp h
  obtain rfl := hw n a ha
  refine ⟨fun j b hb => ?_, rfl, rfl⟩
  rcases join_getElem?_set hb with ⟨rfl, hb⟩ | ⟨hj, hb⟩
  · rw [if_pos rfl]
    exact (Option.some.inj hb).symm
  · rw [if_neg hj]
    simpa using hw j b hb

/-! ## Runs -/

/-- Before the C function is called, destructors assign null pointers. -/
theorem run_construct {i n : Nat} {ops : List (AssignerOp A)} {s : SmartPtr A}
    {w w' : AssignerWorld A}
    (hops : ∀ op ∈ ops, op.destroyed? = none → op = .assign i ∨ ∃ k, op = .moveConstruct k)
    (hw : Holds i n none w) (hs : w.ptrs[i]? = some s) (h : run (step c) w ops = some w') :
    Holds i n none w' ∧ ∃ us s', (∀ u ∈ us, u = none) ∧ w'.ptrs[i]? = some s' ∧
      assignAll c s w.freed us = (s', w'.freed) := by
  induction ops generalizing w s with
  | nil =>
    obtain rfl := Option.some.inj h
    exact ⟨hw, [], s, nofun, hs, rfl⟩
  | cons op ops ih =>
    obtain ⟨v, hstep, hrun⟩ := run_cons_eq_some.mp h
    have hrest : ∀ op ∈ ops, op.destroyed? = none → op = .assign i ∨ ∃ k, op = .moveConstruct k :=
      fun op hop => hops op (List.mem_cons_of_mem _ hop)
    cases hop : op.destroyed? with
    | none =>
      obtain ⟨hv, hptrs, hfreed⟩ := construct_spec hw hstep (hops op List.mem_cons_self hop)
      rw [← hfreed]
      exact ih hrest hv (by rw [hptrs, hs]) hrun
    | some k =>
      obtain rfl : op = .destroy k := by
        cases op with
        | destroy j => exact congrArg _ (Option.some.inj hop)
        | _ => cases hop
      obtain ⟨hv, hptr, hfreed⟩ := destroy_spec hw hs hstep
      obtain ⟨hw', us, s', hus, hs', heq⟩ := ih hrest hv hptr hrun
      rw [hfreed, ite_self] at heq
      refine ⟨hw', none :: us, s', fun u hu => ?_, hs', heq⟩
      rcases List.mem_cons.mp hu with rfl | hu
      · rfl
      · exact hus u hu

/-- After it, each destructor assigns what its assigner holds. -/
theorem run_destroy {i n : Nat} {p : Option A} {ks : List Nat} {s : SmartPtr A}
    {w w' : AssignerWorld A} (hw : Holds i n p w) (hs : w.ptrs[i]? = some s)
    (h : run (step c) w (ks.map .destroy) = some w') :
    ∃ s', w'.ptrs[i]? = some s' ∧
      assignAll c s w.freed (ks.map fun k => if k = n then p else none) = (s', w'.freed) := by
  induction ks generalizing w s with
  | nil =>
    obtain rfl := Option.some.inj h
    exact ⟨s, hs, rfl⟩
  | cons k ks ih =>
    obtain ⟨v, hstep, hrun⟩ := run_cons_eq_some.mp h
    obtain ⟨hv, hptr, hfreed⟩ := destroy_spec hw hs hstep
    obtain ⟨s', hs', heq⟩ := ih hv hptr hrun
    rw [hfreed] at heq
    exact ⟨s', hs', heq⟩

/-- What a chain assigns to its smart pointer: null pointers, the value `p` when the
assigner `n` is destroyed, and null pointers for the assigners `ks₂` after it. These last
ones free `p` again. -/
theorem run_chain {i n : Nat} {p : Option A} {pre : List (AssignerOp A)} {ks₁ ks₂ : List Nat}
    {s : SmartPtr A} {w w' : AssignerWorld A} (hw : w.assigners = []) (hs : w.ptrs[i]? = some s)
    (hchain : IsChain i n pre (ks₁ ++ n :: ks₂))
    (hrun : run (step c) w (pre ++ .store n p :: (ks₁ ++ n :: ks₂).map .destroy) = some w') :
    ∃ us s', (∀ u ∈ us, u = none) ∧ us.length = ks₂.length ∧ w'.ptrs[i]? = some s' ∧
      assignAll c ⟨p, 0⟩ (w.freed ++ s.release c) us = (s', w'.freed) := by
  obtain ⟨hn₁, hn₂⟩ := hchain.mem_split
  have hops : ∀ op ∈ pre, op.destroyed? = none → op = .assign i ∨ ∃ k, op = .moveConstruct k := by
    intro op hmem hop
    have hfilter : op ∈ pre.filter (·.destroyed?.isNone) :=
      List.mem_filter.mpr ⟨hmem, by rw [hop]; rfl⟩
    rw [hchain.constructs] at hfilter
    rcases List.mem_cons.mp hfilter with rfl | hmove
    · exact .inl rfl
    · obtain ⟨k, -, rfl⟩ := List.mem_map.mp hmove
      exact .inr ⟨k, rfl⟩
  have hempty : Holds i n none w := fun k a ha => by simp [alive, hw] at ha
  -- the three parts of the run
  rw [run_append] at hrun
  obtain ⟨w₁, hpre, hrun⟩ := Option.bind_eq_some_iff.mp hrun
  obtain ⟨w₂, hstore, hrun⟩ := run_cons_eq_some.mp hrun
  obtain ⟨hw₁, us, s₁, hus, hs₁, heq₁⟩ := run_construct hops hempty hs hpre
  obtain ⟨hw₂, hptrs, hfreed⟩ := store_spec hw₁ hstore
  obtain ⟨s', hs', heq₂⟩ := run_destroy hw₂ (by rw [hptrs, hs₁]) hrun
  refine ⟨ks₂.map fun k => if k = n then p else none, s', map_values p hn₂, List.length_map _, hs',
    ?_⟩
  -- all that is assigned up to `p`
  have hnulls : ∀ u ∈ us ++ ks₁.map fun k => if k = n then p else none, u = none := fun u hu =>
    (List.mem_append.mp hu).elim (hus u) (map_values p hn₁ u)
  have hp := assignAll_nulls_value c s w.freed hnulls p
  rw [List.append_assoc, assignAll_append, heq₁, ← hfreed] at hp
  rw [List.map_append, List.map_cons, if_pos rfl, List.append_cons, assignAll_append, hp] at heq₂
  exact heq₂

/-- **Moved-from assigners.** For a chain of assigners, moved and destroyed in any
order: in the end the smart pointer owns exactly what was stored through the last
one, and only its old value has been freed, if and only if the last assigner of the
chain is destroyed last, or a null pointer was stored. -/
theorem assigned_iff {i n : Nat} {p : Option A} {pre : List (AssignerOp A)} {ks : List Nat}
    {s : SmartPtr A} {w w' : AssignerWorld A} (hw : w.assigners = []) (hs : w.ptrs[i]? = some s)
    (hchain : IsChain i n pre ks)
    (hrun : run (step c) w (pre ++ .store n p :: ks.map .destroy) = some w') :
    Assigned c i p s w w' ↔ p = none ∨ ks.getLast? = some n := by
  obtain ⟨ks₁, ks₂, rfl⟩ := List.append_of_mem hchain.last
  obtain ⟨us, s', hus, hlen, hs', heq⟩ := run_chain hw hs hchain hrun
  by_cases hlast : ks₂ = []
  · -- the value is not overwritten
    subst hlast
    obtain rfl := List.length_eq_zero_iff.mp hlen
    obtain ⟨rfl, hfreed⟩ := Prod.mk.inj heq
    exact iff_of_true ⟨hs', hfreed.symm⟩ (.inr List.getLast?_concat)
  · have hne : us ≠ [] := fun hnil => hlast (List.length_eq_zero_iff.mp (by rw [← hlen, hnil]; rfl))
    rw [assignAll_value_nulls c p _ hus hne] at heq
    obtain ⟨rfl, hfreed⟩ := Prod.mk.inj heq
    have hother : (ks₁ ++ n :: ks₂).getLast? ≠ some n := by
      intro hget
      rw [List.getLast?_append_of_ne_nil _ (List.cons_ne_nil n ks₂),
        List.getLast?_cons_of_ne_nil hlast] at hget
      exact hchain.mem_split.2 (List.mem_of_getLast? hget)
    rw [or_iff_left hother]
    constructor
    · rintro ⟨howns, -⟩
      exact (congrArg SmartPtr.ptr (Option.some.inj (hs'.symm.trans howns))).symm
    · rintro rfl
      exact ⟨hs', by rw [← hfreed, Option.toList_none, List.append_nil]⟩

/-- A temporary that is passed to the C function assigns what was stored. -/
theorem run_temporary {i : Nat} {p : Option A} {s : SmartPtr A} {w : AssignerWorld A}
    (hw : w.assigners = []) (hs : w.ptrs[i]? = some s) :
    run (step c) w [.assign i, .store 0 p, .destroy 0] =
      some ⟨w.ptrs.set i ⟨p, 0⟩, [none], w.freed ++ s.release c⟩ := by
  obtain ⟨hi, rfl⟩ := List.getElem?_eq_some_iff.mp hs
  simp [run, step, alive, hw, hi, Assigner.new]

/-- One smart pointer, which owns the value 1. -/
def onePtr : AssignerWorld Nat := ⟨[⟨some 1, 0⟩], [], []⟩

/-- The assigner is returned by move, and the one in the callee is destroyed first. -/
theorem assigned_iff_onePtr :
    Assigned .gobject 0 (some 2) ⟨some 1, 0⟩ onePtr ⟨[⟨some 2, 0⟩], [none, none], [1]⟩ := by
  have hchain : IsChain 0 1
      ([.assign 0, .moveConstruct 0, .destroy 0] : List (AssignerOp Nat)) [1] :=
    ⟨rfl, by decide, by decide⟩
  exact (assigned_iff rfl rfl hchain rfl).mpr (.inr rfl)

/-- Two local variables are destroyed in reverse order. -/
theorem assigned_fails_reverse :
    ¬ ∀ (c : AssignerClass) (i n : Nat) (p : Option Nat) (pre : List (AssignerOp Nat))
      (ks : List Nat) (s : SmartPtr Nat) (w w' : AssignerWorld Nat), w.assigners = [] →
        w.ptrs[i]? = some s → IsChain i n pre ks →
          run (step c) w (pre ++ .store n p :: ks.map .destroy) = some w' →
            Assigned c i p s w w' := by
  intro hall
  have h := hall .glib 0 1 (some 2) [.assign 0, .moveConstruct 0] [1, 0] ⟨some 1, 0⟩ onePtr
    ⟨[⟨none, 0⟩], [none, none], [1, 2]⟩ rfl rfl ⟨rfl, by decide, by decide⟩ rfl
  exact absurd h.owns (by decide)

end AssignerWorld

end LomiriApi
