import LomiriApi.Exception.Heap
import LomiriApi.Exception.Escape
import LomiriApi.Lib.Run

/-!
# Loops in the exception graph

`Runtime` is what a program has of exceptions: the objects, the handlers that are
active and the pointers that `remember` and `self` have returned. `Runtime.step`
lets it construct, copy, throw, rethrow and remember exceptions.

`remember` does not look beyond the pointer that it stores, so whether a graph
stays free of loops is up to the calls: a run keeps all its graphs acyclic exactly
when no exception remembers a pointer from which it can itself be reached
(`Runtime.acyclic_iff_noLoop`). An acyclic graph unfolds to finite structures, and
then `to_string`, `follow_nested`, `follow_history` and `what` come back
(`renderingEnds_of_acyclic`).
-/

namespace LomiriApi

open Lib Relation

/-! ## The rendering of finite structures ends -/

/-- From every object in memory, the recursion behind `to_string` and `what` comes
to an end. -/
structure RenderingEnds {ρ : Type} (mem : ρ → Thrown ρ) : Prop where
  toStringAt : ∀ p e, mem p = .nested (.lomiri e) → ∃ k, ∀ fuel, k ≤ fuel → ∀ n indent,
    toStringAt mem fuel e n indent ≠ .running
  followHistory : ∀ p e, mem p = .nested (.lomiri e) → ∃ k, ∀ fuel, k ≤ fuel → ∀ s n indent,
    followHistory mem fuel s e n indent ≠ .running
  followNested : ∀ p e, mem p = .nested e → ∃ k, ∀ fuel, k ≤ fuel → ∀ s n indent,
    followNested mem fuel s e n indent ≠ .running
  what : ∀ p e, mem p = .nested (.lomiri e) → ∃ k, ∀ fuel, k ≤ fuel → what mem fuel e ≠ .running

section Ends

variable {ρ : Type} {mem : ρ → Thrown ρ}

/-- The structure behind a pointer is the structure of the exception object the pointer
leads to. -/
theorem Unfolds.unfoldsTo {p : ρ} {e : Exception ρ} {t : ExcTree} (h : Unfolds mem (some p) t)
    (he : mem p = .nested (.lomiri e)) : e.UnfoldsTo mem t := by
  cases h with
  | lomiri he' hn hearlier =>
    obtain rfl : _ = e := by simpa using he'.symm.trans he
    exact ⟨_, _, hn, hearlier, rfl⟩
  | derived he' _ | bare he' _ | std he' | unknown he' => cases he'.symm.trans he

/-- What an object is nested in unfolds as well. -/
theorem Unfolds.nestedPtr {p : ρ} {e : NestedException ρ} {t : ExcTree}
    (h : Unfolds mem (some p) t) (he : mem p = .nested e) : ∃ tn, Unfolds mem e.nestedPtr tn := by
  cases h with
  | lomiri he' hn _ | derived he' hn | bare he' hn =>
    obtain rfl : _ = e := by simpa using he'.symm.trans he
    exact ⟨_, hn⟩
  | std he' | unknown he' => cases he'.symm.trans he

/-- With fuel for twice the size of the structure, `to_string` returns a text or lets an
exception from elsewhere escape, which the history leads to; it does not run on. -/
theorem toStringAt_ends {e : Exception ρ} {t : ExcTree} (h : e.UnfoldsTo mem t) {fuel : Nat}
    (hfuel : 2 * t.size ≤ fuel) (n : Int) (indent : Text) :
    (∃ s, toStringAt mem fuel e n indent = .done s) ∨
      ∃ x : Thrown ρ, x.Foreign ∧ toStringAt mem fuel e n indent = .threw x := by
  by_cases hl : t.EarlierLomiri
  · obtain ⟨s, hs, -⟩ := ((rendering_prints hl).2 h.isLomiri).2 e h fuel hfuel n
    exact .inl ⟨s, hs⟩
  · exact .inr (((rendering_throws hl).2 h.isLomiri).2 e h fuel hfuel n)

/-- The loop over the history ends within the same fuel. -/
theorem followHistory_ends {e : Exception ρ} {t : ExcTree} (h : e.UnfoldsTo mem t) {fuel : Nat}
    (hfuel : 2 * t.size ≤ fuel) (s : Text) (n : Int) (indent : Text) :
    followHistory mem fuel s e n indent ≠ .running := by
  by_cases hl : t.EarlierLomiri
  · rw [((rendering_prints hl).2 h.isLomiri).1 e h fuel hfuel s n]
    simp
  · obtain ⟨x, -, hx⟩ := ((rendering_throws hl).2 h.isLomiri).1 e h fuel hfuel s n
    rw [hx]
    simp

/-- The loop over the nested exceptions ends within the same fuel, and one step more for
following the pointer itself. -/
theorem followNested_ends {e : NestedException ρ} {t : ExcTree} (h : Unfolds mem e.nestedPtr t)
    {fuel : Nat} (hfuel : 2 * t.size + 1 ≤ fuel) (s : Text) (n : Int) (indent : Text) :
    followNested mem fuel s e n indent ≠ .running := by
  by_cases hl : t.EarlierLomiri
  · rw [(rendering_prints hl).1 e h fuel hfuel s n]
    simp
  · obtain ⟨x, -, hx⟩ := (rendering_throws hl).1 e h fuel hfuel s n
    rw [hx]
    simp

/-- What escapes from `to_string` is foreign, so `what` does not call itself. -/
theorem what_ends {e : Exception ρ} {t : ExcTree} (h : e.UnfoldsTo mem t) {fuel : Nat}
    (hfuel : 2 * t.size + 1 ≤ fuel) : what mem fuel e ≠ .running := by
  obtain ⟨fuel, rfl⟩ : ∃ k, fuel = k + 1 := ⟨fuel - 1, by omega⟩
  rw [what, toString_]
  have hle : 2 * t.size ≤ fuel := by omega
  rcases toStringAt_ends h hle 0 defaultIndent with ⟨s, hs⟩ | ⟨x, hx, hs⟩
  · simp [hs]
  · rw [hs]
    cases x with
    | std w | unknown => simp
    | nested ne =>
      cases ne with
      | lomiri e' => exact absurd rfl (hx e')
      | derived w np | bare np => simp

/-- Where every pointer leads to a finite structure, each function that follows the links
ends, from every exception and at every level. -/
theorem renderingEnds_of_unfolds (h : ∀ p, ∃ t, Unfolds mem (some p) t) : RenderingEnds mem where
  toStringAt p e he := by
    obtain ⟨t, ht⟩ := h p
    refine ⟨2 * t.size, fun fuel hfuel n indent => ?_⟩
    rcases toStringAt_ends (ht.unfoldsTo he) hfuel n indent with ⟨s, hs⟩ | ⟨x, -, hs⟩ <;> simp [hs]
  followHistory p e he := by
    obtain ⟨t, ht⟩ := h p
    exact ⟨2 * t.size, fun fuel hfuel => followHistory_ends (ht.unfoldsTo he) hfuel⟩
  followNested p e he := by
    obtain ⟨t, ht⟩ := h p
    obtain ⟨tn, htn⟩ := ht.nestedPtr he
    exact ⟨2 * tn.size + 1, fun fuel hfuel => followNested_ends htn hfuel⟩
  what p e he := by
    obtain ⟨t, ht⟩ := h p
    exact ⟨2 * t.size + 1, fun fuel hfuel => what_ends (ht.unfoldsTo he) hfuel⟩

end Ends

/-- On a heap without loops rendering always ends: the links can only be followed finitely
often because the heap is finite. -/
theorem renderingEnds_of_acyclic {h : Heap} (hacyc : Acyclic (Link h.mem)) : RenderingEnds h.mem :=
  renderingEnds_of_unfolds fun p => h.exists_unfolds hacyc (some p)

/-! ## Operations on an acyclic heap -/

namespace Heap

variable {h : Heap}

/-- Nothing refers to an object that is being created. -/
theorem acyclic_alloc (hacyc : Acyclic (Link h.mem)) (t : Thrown Nat)
    (ht : ∀ q ∈ t.links, q < h.size) : Acyclic (Link (h.alloc t ht).mem) := by
  refine hacyc.insert_source (v := h.size) (fun a b hab => ?_) (fun a ha => ?_)
  · by_cases hsize : a = h.size
    · exact .inr hsize
    · rw [Link, mem_alloc, if_neg hsize] at hab
      exact .inl hab
  · rw [Link, mem_alloc] at ha
    split at ha
    · exact Nat.lt_irrefl _ (ht _ ha)
    · exact Nat.lt_irrefl _ (h.mem_links_lt ha)

section Remember

variable {a : Nat} {e : Exception Nat} (he : h.mem a = .nested (.lomiri e)) {p : Option Nat}
  (hp : ∀ q ∈ p, q < h.size)

/-- The links after `remember(p)`: those of the object and of its copy may lead to
`p`. -/
theorem link_remember {b c : Nat} (hbc : Link (h.remember he p hp).1.mem b c) :
    Link h.mem b c ∨ (b = a ∨ b = h.size) ∧ (Link h.mem a c ∨ c ∈ p) := by
  rw [Link, mem_remember] at hbc
  split at hbc
  case isTrue hb =>
    refine .inr ⟨hb, ?_⟩
    rcases List.mem_append.mp hbc with hc | hc
    · left
      rw [Link, he]
      exact List.mem_append_left _ hc
    · exact .inr (Option.mem_toList.mp hc)
  case isFalse => exact .inl hbc

/-- `remember` adds one link, so a loop can come up only through that link: none does if
the exception is not reached from what it is to remember. -/
theorem acyclic_remember (hacyc : Acyclic (Link h.mem))
    (hloop : ∀ q ∈ p, ¬ ReflTransGen (Link h.mem) q a) :
    Acyclic (Link (h.remember he p hp).1.mem) := by
  -- the graph with the new earlier link of the object, without the copy
  let linked : Nat → Nat → Prop := fun b c => Link h.mem b c ∨ b = a ∧ c ∈ p
  have hlinked : Acyclic linked := by
    cases p with
    | none => exact hacyc.mono fun b c hbc => hbc.resolve_right fun hc => by cases hc.2
    | some q =>
      refine hacyc.insert_edge (e := a) (p := q) (fun b c hbc => ?_) (hloop q rfl)
      exact hbc.imp_right fun hc => ⟨hc.1, (Option.mem_some.mp hc.2).symm⟩
  refine hlinked.insert_source (v := h.size) (fun b c hbc => ?_) (fun b hb => ?_)
  · rcases link_remember he hp hbc with hold | ⟨rfl | rfl, hnew⟩
    · exact .inl (.inl hold)
    · exact .inl (hnew.imp_right fun hc => ⟨rfl, hc⟩)
    · exact .inr rfl
  · rcases link_remember he hp hb with hold | ⟨-, hold | hnew⟩
    · exact Nat.lt_irrefl _ (lt_of_link hold).2
    · exact Nat.lt_irrefl _ (lt_of_link hold).2
    · exact Nat.lt_irrefl _ (hp _ hnew)

/-- The condition of `acyclic_remember` is exact: were the exception reached from what it
remembers, the added link would close a loop. -/
theorem not_reaches_of_acyclic_remember (hacyc : Acyclic (Link (h.remember he p hp).1.mem)) :
    ∀ q ∈ p, ¬ ReflTransGen (Link h.mem) q a := by
  intro q hq
  refine hacyc.not_reaches (fun b c hba hbc => ?_) ?_
  · rw [Link, mem_remember, if_neg (not_or.mpr ⟨hba, Nat.ne_of_lt (lt_of_link hbc).1⟩)]
    exact hbc
  · rw [Link, mem_remember, if_pos (.inl rfl)]
    exact List.mem_append_right _ (Option.mem_toList.mpr hq)

end Remember

end Heap

/-! ## Programs that use exceptions -/

/-- What a program has of exceptions: the objects, the exceptions that it is
handling (innermost first) and the pointers that `remember` and `self` returned. -/
structure Runtime where
  heap : Heap
  handlers : List Nat
  returned : List Nat
  handlers_lt : ∀ q ∈ handlers, q < heap.size
  returned_lt : ∀ q ∈ returned, q < heap.size

/-- Exceptions of other classes. -/
inductive OtherException where
  | derived (what : Text)
  | bare
  | std (what : Text)
  | unknown
deriving DecidableEq, Repr

/-- A new object, with what a `std::nested_exception` captures. -/
def OtherException.thrown : OtherException → Option Nat → Thrown Nat
  | derived what, current => .nested (.derived what current)
  | bare, current => .nested (.bare current)
  | std what, _ => .std what
  | unknown, _ => .unknown

/-- What a program does with exceptions. The runs below are arbitrary lists of these
operations, so a pointer can be kept, rethrown much later, and remembered by any exception
that is still there. -/
inductive ExceptionOp where
  /-- construct a `lomiri::Exception` -/
  | construct (name reason : Text)
  | constructOther (x : OtherException)
  /-- copy-construct from the object at `a` -/
  | copy (a : Nat)
  /-- throw a copy of the object at `a` and catch it by reference, outside of the
  `unwound` innermost handlers -/
  | throw_ (a unwound : Nat)
  /-- rethrow a pointer and catch the object by reference -/
  | rethrow (p unwound : Nat)
  /-- leave the innermost handler -/
  | leave
  /-- `a.self()` -/
  | self (a : Nat)
  /-- `a.remember(p)` -/
  | remember (a : Nat) (p : Option Nat)
deriving DecidableEq, Repr

namespace Runtime

/-- The program begins with no exception object, nothing being handled, and no pointer
held. -/
def start : Runtime where
  heap := ⟨[], by simp⟩
  handlers := []
  returned := []
  handlers_lt := by simp
  returned_lt := by simp

/-- `std::current_exception()`. -/
def current (s : Runtime) : Option Nat := s.handlers.head?

/-- The exception being handled is an object of the heap, so a copy of the pointer to it
never dangles. -/
theorem current_lt (s : Runtime) : ∀ q ∈ s.current, q < s.heap.size := by
  intro q hq
  exact s.handlers_lt q (List.mem_of_mem_head? hq)

/-- The pointers that the program can get hold of: returned ones, those of the
active handlers and those in the objects. -/
def held (s : Runtime) : List Nat :=
  s.returned ++ s.handlers ++ s.heap.objs.flatMap Thrown.links

/-- The pointers a program holds lead to objects of the heap. -/
theorem held_lt (s : Runtime) : ∀ q ∈ s.held, q < s.heap.size := by
  intro q hq
  rcases List.mem_append.mp hq with hq | hq
  · rcases List.mem_append.mp hq with hq | hq
    · exact s.returned_lt q hq
    · exact s.handlers_lt q hq
  · obtain ⟨t, ht, hq⟩ := List.mem_flatMap.mp hq
    exact s.heap.closed t ht q hq

/-- The program creates an object. -/
def create (s : Runtime) (t : Thrown Nat) (ht : ∀ q ∈ t.links, q < s.heap.size) : Runtime where
  heap := s.heap.alloc t ht
  handlers := s.handlers
  returned := s.returned
  handlers_lt q hq := by
    rw [Heap.size_alloc]
    exact Nat.lt_add_right 1 (s.handlers_lt q hq)
  returned_lt q hq := by
    rw [Heap.size_alloc]
    exact Nat.lt_add_right 1 (s.returned_lt q hq)

/-- The program enters a handler for the object at `p`, outside of the `unwound`
innermost handlers. -/
def handle (s : Runtime) (p unwound : Nat) (hp : p < s.heap.size) : Runtime where
  heap := s.heap
  handlers := p :: s.handlers.drop unwound
  returned := s.returned
  handlers_lt := by
    rw [List.forall_mem_cons]
    exact ⟨hp, fun q hq => s.handlers_lt q (List.mem_of_mem_drop hq)⟩
  returned_lt := s.returned_lt

/-- The end of a catch block: the exception handled before becomes the current one
again. -/
def leave (s : Runtime) : Runtime where
  heap := s.heap
  handlers := s.handlers.tail
  returned := s.returned
  handlers_lt q hq := s.handlers_lt q (List.mem_of_mem_tail hq)
  returned_lt := s.returned_lt

/-- The program keeps a pointer that it got. -/
def keep (s : Runtime) (p : Nat) (hp : p < s.heap.size) : Runtime where
  heap := s.heap
  handlers := s.handlers
  returned := p :: s.returned
  handlers_lt := s.handlers_lt
  returned_lt := by
    rw [List.forall_mem_cons]
    exact ⟨hp, s.returned_lt⟩

/-- The program calls `remember(p)` on the `lomiri::Exception` at `a` and keeps the
pointer that it gets. -/
def remember (s : Runtime) {a : Nat} {e : Exception Nat} (he : s.heap.mem a = .nested (.lomiri e))
    (p : Option Nat) (hp : ∀ q ∈ p, q < s.heap.size) : Runtime where
  heap := (s.heap.remember he p hp).1
  handlers := s.handlers
  returned := (s.heap.remember he p hp).2 :: s.returned
  handlers_lt q hq := by
    rw [Heap.size_remember]
    exact Nat.lt_add_right 1 (s.handlers_lt q hq)
  returned_lt := by
    rw [List.forall_mem_cons, Heap.size_remember, Heap.remember_snd]
    exact ⟨Nat.lt_succ_self _, fun q hq => Nat.lt_add_right 1 (s.returned_lt q hq)⟩

/-- A copy has the links of its original, which lead into the heap. -/
theorem copy_links (s : Runtime) (a : Nat) : ∀ q ∈ (s.heap.mem a).links, q < s.heap.size :=
  fun _ hq => s.heap.mem_links_lt hq

/-- The only link of a new `lomiri::Exception` is the one that the constructor takes from the
exception being handled. -/
theorem construct_links (s : Runtime) (name reason : Text) :
    ∀ q ∈ (Thrown.nested (.lomiri ⟨name, reason, s.current, none⟩)).links, q < s.heap.size :=
  fun q hq => s.current_lt q (by simpa [Thrown.links] using hq)

/-- An exception from elsewhere links to the exception being handled if it is a
`std::nested_exception`, and to nothing otherwise. -/
theorem other_links (s : Runtime) (x : OtherException) :
    ∀ q ∈ (x.thrown s.current).links, q < s.heap.size := by
  intro q hq
  cases x with
  | derived what | bare => exact s.current_lt q (Option.mem_toList.mp hq)
  | std what | unknown => cases hq

/-- One operation of the program; `none` if it is not possible. -/
def step (s : Runtime) : ExceptionOp → Option Runtime
  | .construct name reason =>
    some (s.create (.nested (.lomiri ⟨name, reason, s.current, none⟩))
      (s.construct_links name reason))
  | .constructOther x => some (s.create (x.thrown s.current) (s.other_links x))
  | .copy a => if a < s.heap.size then some (s.create (s.heap.mem a) (s.copy_links a)) else none
  | .throw_ a unwound =>
    if a < s.heap.size then
      some ((s.create (s.heap.mem a) (s.copy_links a)).handle s.heap.size unwound
        (by simp [create]))
    else none
  | .rethrow p unwound =>
    if hp : p ∈ s.held then some (s.handle p unwound (s.held_lt p hp)) else none
  | .leave => some s.leave
  | .self a =>
    match s.heap.mem a with
    | .nested (.lomiri _) =>
      some ((s.create (s.heap.mem a) (s.copy_links a)).keep s.heap.size (by simp [create]))
    | _ => none
  | .remember a p =>
    match he : s.heap.mem a with
    | .nested (.lomiri _) =>
      if hp : ∀ q ∈ p, q ∈ s.returned then
        some (s.remember he p fun q hq => s.returned_lt q (hp q hq))
      else none
    | _ => none

/-- What a step does to the objects: nothing, a new object, or a `remember`. -/
theorem step_cases {s s' : Runtime} {op : ExceptionOp} (h : s.step op = some s') :
    (s'.heap = s.heap ∧ ∀ a p, op ≠ .remember a p) ∨
      (∃ t ht, s'.heap = s.heap.alloc t ht ∧ ∀ a p, op ≠ .remember a p) ∨
        ∃ a e he p hp, op = .remember a p ∧
          s'.heap = (s.heap.remember (a := a) (e := e) he p hp).1 := by
  cases op with
  | construct name reason =>
    obtain rfl := Option.some.inj h
    exact .inr (.inl ⟨_, s.construct_links name reason, rfl, by simp⟩)
  | constructOther x =>
    obtain rfl := Option.some.inj h
    exact .inr (.inl ⟨_, s.other_links x, rfl, by simp⟩)
  | copy a =>
    obtain ⟨-, hs⟩ := Option.ite_none_right_eq_some.mp h
    obtain rfl := Option.some.inj hs
    exact .inr (.inl ⟨_, s.copy_links a, rfl, by simp⟩)
  | throw_ a unwound =>
    obtain ⟨-, hs⟩ := Option.ite_none_right_eq_some.mp h
    obtain rfl := Option.some.inj hs
    exact .inr (.inl ⟨_, s.copy_links a, rfl, by simp⟩)
  | rethrow p unwound =>
    obtain ⟨_, hs⟩ := Option.dite_none_right_eq_some.mp h
    obtain rfl := Option.some.inj hs
    exact .inl ⟨rfl, by simp⟩
  | leave =>
    obtain rfl := Option.some.inj h
    exact .inl ⟨rfl, by simp⟩
  | self a =>
    simp only [step] at h
    split at h
    · obtain rfl := Option.some.inj h
      exact .inr (.inl ⟨_, s.copy_links a, rfl, by simp⟩)
    · cases h
  | remember a p =>
    simp only [step] at h
    split at h
    · rename_i e he
      obtain ⟨hp, hs⟩ := Option.dite_none_right_eq_some.mp h
      obtain rfl := Option.some.inj hs
      exact .inr (.inr ⟨a, e, he, p, fun q hq => s.returned_lt q (hp q hq), rfl, rfl⟩)
    · cases h

/-- The step does not let an exception remember a pointer from which it can be
reached. -/
def NoLoop (s : Runtime) (op : ExceptionOp) : Prop :=
  ∀ a p, op = .remember a (some p) → ¬ ReflTransGen (Link s.heap.mem) p a

/-- One step keeps the heap free of loops as long as the step is no `remember` of something
that leads back to the exception. -/
theorem step_acyclic {s s' : Runtime} {op : ExceptionOp} (hs : Acyclic (Link s.heap.mem))
    (h : s.step op = some s') (hloop : s.NoLoop op) : Acyclic (Link s'.heap.mem) := by
  rcases step_cases h with ⟨hheap, -⟩ | ⟨t, ht, hheap, -⟩ | ⟨a, e, he, p, hp, rfl, hheap⟩ <;>
    rw [hheap]
  · exact hs
  · exact Heap.acyclic_alloc hs t ht
  · refine Heap.acyclic_remember he hp hs fun q hq => ?_
    obtain rfl := Option.mem_def.mp hq
    exact hloop a q rfl

/-- Conversely a step that leaves the heap free of loops was no such `remember`. -/
theorem noLoop_of_acyclic {s s' : Runtime} {op : ExceptionOp} (h : s.step op = some s')
    (hs' : Acyclic (Link s'.heap.mem)) : s.NoLoop op := by
  rintro a p rfl
  rcases step_cases h with ⟨-, hne⟩ | ⟨_, _, -, hne⟩ | ⟨a', e, he, p', hp, hop, hheap⟩
  · exact absurd rfl (hne a (some p))
  · exact absurd rfl (hne a (some p))
  · obtain ⟨rfl, rfl⟩ := ExceptionOp.remember.inj hop
    rw [hheap] at hs'
    exact Heap.not_reaches_of_acyclic_remember he hp hs' p rfl

theorem start_acyclic : Acyclic (Link start.heap.mem) := by
  intro a ha
  obtain ⟨b, hab, -⟩ := TransGen.head'_iff.mp ha
  exact absurd (Heap.lt_of_link hab).1 (Nat.not_lt_zero a)

/-- **Acyclic exception graphs.** All along a run, no exception object is reachable
from itself (and so all rendering ends) exactly when the run never lets an exception
remember a pointer from which it can be reached. -/
theorem acyclic_iff_noLoop (ops : List ExceptionOp) :
    Always step (fun s => Acyclic (Link s.heap.mem) ∧ RenderingEnds s.heap.mem) start ops ↔
      Meets step NoLoop start ops :=
  always_iff_meets (I := fun s => Acyclic (Link s.heap.mem))
    (fun _ _ _ hs h hloop => step_acyclic hs h hloop)
    (fun _ hs => ⟨hs, renderingEnds_of_acyclic hs⟩)
    (fun _ _ _ _ h hs' => noLoop_of_acyclic h hs'.1) start_acyclic

/-- An exception is asked for a pointer to itself; the pointer is rethrown and
caught by reference, and the exception caught remembers the pointer. -/
def selfLoop : List ExceptionOp :=
  [.construct "lomiri::InvalidArgumentException" "Step 1", .self 0, .rethrow 1 0,
    .remember 1 (some 1)]

/-- An exception that remembers itself, through the pointer that `self` gave out, makes a
loop. -/
theorem acyclic_fails_selfLoop :
    ¬ ∀ ops, Always step (fun s => Acyclic (Link s.heap.mem) ∧ RenderingEnds s.heap.mem) start ops
      := by
  intro h
  have hrun : ∃ s, run step start selfLoop = some s ∧ 1 ∈ (s.heap.mem 1).links := by
    refine ⟨_, rfl, ?_⟩
    decide
  obtain ⟨s, hs, hlink⟩ := hrun
  exact (h selfLoop selfLoop (List.prefix_refl _) s hs).1 1 (.single hlink)

end Runtime

end LomiriApi
