import LomiriApi.Exception.Tree
import LomiriApi.Lib.Acyclic
import Mathlib.Data.List.GetD
import Mathlib.Data.Set.Finite.Basic

/-!
# Exception objects in memory

- `Heap`: the exception objects that exist, at addresses `0, 1, …`. Every link
  refers to an object, and a `Heap` carries the proof of that.
- `Exception.remember`, `Heap.self`, `Heap.remember`: `remember` changes the object
  that it is called on and returns a pointer to a copy of it.
- `Link`: the edges that nested and earlier links make. What a pointer unfolds to
  depends only on the objects that it reaches (`Unfolds.congr`), and in an acyclic
  heap every pointer unfolds to a finite structure (`Heap.exists_unfolds`).
-/

namespace LomiriApi

open Lib Relation

/-- `Exception::remember`, on the members of the object. -/
def Exception.remember {ρ : Type} [DecidableEq ρ] (this : Exception ρ)
    (earlierException : Option ρ) : Exception ρ :=
  -- Doesn't prevent loops, but protects against accidental self-assignment.
  if this.earlier_ ≠ earlierException then { this with earlier_ := earlierException } else this

/-- The guard of `remember` cannot be observed. -/
theorem Exception.remember_eq {ρ : Type} [DecidableEq ρ] (this : Exception ρ) (p : Option ρ) :
    this.remember p = { this with earlier_ := p } := by
  by_cases h : this.earlier_ = p
  · subst h
    simp [Exception.remember]
  · simp [Exception.remember, h]

/-- The pointers in an exception object. -/
def Thrown.links {ρ : Type} : Thrown ρ → List ρ
  | .nested (.lomiri e) => e.nested.toList ++ e.earlier_.toList
  | .nested (.derived _ np) => np.toList
  | .nested (.bare np) => np.toList
  | .std _ => []
  | .unknown => []

/-- A nested or earlier link leads from `p` to `q`. -/
def Link {ρ : Type} (mem : ρ → Thrown ρ) (p q : ρ) : Prop := q ∈ (mem p).links

/-- The exception objects in memory. -/
structure Heap where
  objs : List (Thrown Nat)
  closed : ∀ t ∈ objs, ∀ q ∈ t.links, q < objs.length

namespace Heap

/-- How many exception objects the program has made so far. The next one gets this
number. -/
def size (h : Heap) : Nat := h.objs.length

/-- What rethrowing a pointer throws. -/
def mem (h : Heap) (p : Nat) : Thrown Nat := h.objs.getD p .unknown

/-- No link of an object dangles. Exception objects are reference counted, so what is
linked to is still there. -/
theorem mem_links_lt (h : Heap) {p q : Nat} (hq : q ∈ (h.mem p).links) : q < h.size := by
  rw [mem, List.getD_eq_getElem?_getD] at hq
  cases hp : h.objs[p]? with
  | none => rw [hp] at hq; cases hq
  | some t =>
    rw [hp] at hq
    exact h.closed t (List.mem_of_getElem? hp) q hq

/-- A nested exception is found at allocated addresses only. -/
theorem lt_of_mem_eq_nested {h : Heap} {p : Nat} {e : NestedException Nat}
    (he : h.mem p = .nested e) : p < h.size := by
  by_contra hp
  rw [mem, List.getD_eq_default _ _ (Nat.le_of_not_lt hp)] at he
  cases he

/-- Both ends of a link are allocated. -/
theorem lt_of_link {h : Heap} {p q : Nat} (hpq : Link h.mem p q) : p < h.size ∧ q < h.size := by
  refine ⟨?_, h.mem_links_lt hpq⟩
  by_contra hp
  rw [Link, mem, List.getD_eq_default _ _ (Nat.le_of_not_lt hp)] at hpq
  cases hpq

/-- Nothing leads to or from an address that is not in use. -/
theorem lt_of_reaches {h : Heap} {p q : Nat} (hp : p < h.size)
    (hpq : ReflTransGen (Link h.mem) p q) : q < h.size := by
  rcases ReflTransGen.cases_tail hpq with rfl | ⟨b, -, hb⟩
  · exact hp
  · exact (lt_of_link hb).2

/-- The heap `h'` has all objects of `h`, unchanged. -/
def Extends (h h' : Heap) : Prop := h.objs <+: h'.objs

/-- Objects that were there keep their contents when the heap is only extended. -/
theorem Extends.mem_eq {h h' : Heap} (hext : h.Extends h') {p : Nat} (hp : p < h.size) :
    h'.mem p = h.mem p := by
  obtain ⟨rest, hrest⟩ := hext
  rw [mem, mem, ← hrest, List.getD_append _ _ _ _ hp]

theorem Extends.size_le {h h' : Heap} (hext : h.Extends h') : h.size ≤ h'.size := hext.length_le

/-- A new object. -/
def alloc (h : Heap) (t : Thrown Nat) (ht : ∀ q ∈ t.links, q < h.size) : Heap where
  objs := h.objs ++ [t]
  closed := by
    intro u hu q hq
    rw [List.length_append]
    rcases List.mem_append.mp hu with hu | hu
    · exact Nat.lt_add_right 1 (h.closed u hu q hq)
    · rw [List.mem_singleton.mp hu] at hq
      exact Nat.lt_add_right 1 (ht q hq)

@[simp] theorem size_alloc (h : Heap) (t : Thrown Nat) (ht : ∀ q ∈ t.links, q < h.size) :
    (h.alloc t ht).size = h.size + 1 := List.length_append

/-- The new object is found at the new address, and every other address is untouched. -/
theorem mem_alloc (h : Heap) (t : Thrown Nat) (ht : ∀ q ∈ t.links, q < h.size) (p : Nat) :
    (h.alloc t ht).mem p = if p = h.size then t else h.mem p := by
  change (h.objs ++ [t]).getD p .unknown = if p = h.objs.length then t else h.objs.getD p .unknown
  rcases Nat.lt_trichotomy p h.objs.length with hp | rfl | hp
  · rw [List.getD_append _ _ _ _ hp, if_neg (Nat.ne_of_lt hp)]
  · simp
  · rw [if_neg (Nat.ne_of_gt hp), List.getD_eq_default _ _ (by simpa using Nat.succ_le_of_lt hp),
      List.getD_eq_default _ _ (Nat.le_of_lt hp)]

/-- The object at `p` becomes `t`. -/
def set (h : Heap) (p : Nat) (t : Thrown Nat) (ht : ∀ q ∈ t.links, q < h.size) : Heap where
  objs := h.objs.set p t
  closed := by
    intro u hu q hq
    rw [List.length_set]
    rcases List.mem_or_eq_of_mem_set hu with hu | rfl
    · exact h.closed u hu q hq
    · exact ht q hq

@[simp] theorem size_set (h : Heap) (p : Nat) (t : Thrown Nat) (ht : ∀ q ∈ t.links, q < h.size) :
    (h.set p t ht).size = h.size := List.length_set

/-- The written object is found at its address, and every other address is untouched. -/
theorem mem_set (h : Heap) {p : Nat} (hp : p < h.size) (t : Thrown Nat)
    (ht : ∀ q ∈ t.links, q < h.size) (q : Nat) :
    (h.set p t ht).mem q = if q = p then t else h.mem q := by
  simp only [mem, set, List.getD_eq_getElem?_getD, List.getElem?_set]
  by_cases hpq : p = q
  · subst hpq
    have hlt : p < h.objs.length := hp
    simp [hlt]
  · rw [if_neg hpq, if_neg (Ne.symm hpq)]

/-- `self()`: a pointer to a copy of the object at `p`. -/
def self (h : Heap) (p : Nat) : Heap × Nat :=
  (h.alloc (h.mem p) fun _ hq => h.mem_links_lt hq, h.size)

/-- The links of an exception after `remember` lead into the heap: what it remembers now,
and what it was nested in before. -/
theorem remember_links (h : Heap) {a : Nat} {e : Exception Nat}
    (he : h.mem a = .nested (.lomiri e)) {p : Option Nat} (hp : ∀ q ∈ p, q < h.size) :
    ∀ q ∈ (Thrown.nested (.lomiri (e.remember p))).links, q < h.size := by
  intro q hq
  rw [Exception.remember_eq, Thrown.links, List.mem_append] at hq
  rcases hq with hq | hq
  · refine h.mem_links_lt (p := a) ?_
    rw [he]
    exact List.mem_append_left _ hq
  · exact hp q (Option.mem_toList.mp hq)

/-- `remember(p)` on the `lomiri::Exception` at `a`, and the pointer that it returns. -/
def remember (h : Heap) {a : Nat} {e : Exception Nat} (he : h.mem a = .nested (.lomiri e))
    (p : Option Nat) (hp : ∀ q ∈ p, q < h.size) : Heap × Nat :=
  (h.set a (.nested (.lomiri (e.remember p))) (h.remember_links he hp)).self a

section Remember

variable (h : Heap) {a : Nat} {e : Exception Nat} (he : h.mem a = .nested (.lomiri e))
  (p : Option Nat) (hp : ∀ q ∈ p, q < h.size)

/-- `remember` returns a pointer to a fresh copy of the exception, not to the exception
itself. -/
@[simp] theorem remember_snd : (h.remember he p hp).2 = h.size := size_set ..

/-- `remember` makes one object, the copy it returns. -/
@[simp] theorem size_remember : (h.remember he p hp).1.size = h.size + 1 := by
  rw [remember, self, size_alloc, size_set]

/-- After `remember(p)` the object and the returned copy of it have `p` as their
earlier link, and all else is as before. -/
theorem mem_remember (q : Nat) : (h.remember he p hp).1.mem q =
    if q = a ∨ q = h.size then .nested (.lomiri { e with earlier_ := p }) else h.mem q := by
  have ha : a < h.size := lt_of_mem_eq_nested he
  rw [remember, self, mem_alloc, mem_set h ha, mem_set h ha, size_set, Exception.remember_eq,
    if_pos rfl]
  by_cases hq : q = h.size
  · rw [if_pos hq, if_pos (.inr hq)]
  · rw [if_neg hq]
    by_cases hqa : q = a
    · rw [if_pos hqa, if_pos (.inl hqa)]
    · rw [if_neg hqa, if_neg (not_or.mpr ⟨hqa, hq⟩)]

end Remember

end Heap

/-! ## What a pointer unfolds to -/

section Unfolding

variable {ρ : Type} {mem mem' : ρ → Thrown ρ}

/-- What a pointer unfolds to depends only on the objects that it reaches. -/
theorem Unfolds.congr {p : Option ρ} {t : ExcTree} (h : Unfolds mem p t)
    (hmem : ∀ a ∈ p, ∀ q, ReflTransGen (Link mem) a q → mem' q = mem q) : Unfolds mem' p t := by
  -- a link leads from `a` to what it unfolds to
  have hsub : ∀ {a : ρ} {l : Option ρ}, (∀ q, ReflTransGen (Link mem) a q → mem' q = mem q) →
      (∀ b ∈ l, Link mem a b) → ∀ b ∈ l, ∀ q, ReflTransGen (Link mem) b q → mem' q = mem q :=
    fun hreach hlink b hb q hq => hreach q (ReflTransGen.head (hlink b hb) hq)
  induction h with
  | null => exact .null
  | @lomiri a e tn te he _ _ ihn ihe =>
    have hreach := hmem a rfl
    refine .lomiri ((hreach a .refl).trans he) (ihn (hsub hreach fun b hb => ?_))
      (ihe (hsub hreach fun b hb => ?_))
    · rw [Link, he]
      exact List.mem_append_left _ (Option.mem_toList.mpr hb)
    · rw [Link, he]
      exact List.mem_append_right _ (Option.mem_toList.mpr hb)
  | @derived a what np tn he _ ih =>
    have hreach := hmem a rfl
    refine .derived ((hreach a .refl).trans he) (ih (hsub hreach fun b hb => ?_))
    rw [Link, he]
    exact Option.mem_toList.mpr hb
  | @bare a np tn he _ ih =>
    have hreach := hmem a rfl
    refine .bare ((hreach a .refl).trans he) (ih (hsub hreach fun b hb => ?_))
    rw [Link, he]
    exact Option.mem_toList.mpr hb
  | @std a what he => exact .std ((hmem a rfl a .refl).trans he)
  | @unknown a he => exact .unknown ((hmem a rfl a .refl).trans he)

/-- If the links of an object unfold, so does a pointer to it. -/
theorem exists_unfolds_of_links {a : ρ}
    (h : ∀ b, Link mem a b → ∃ t, Unfolds mem (some b) t) : ∃ t, Unfolds mem (some a) t := by
  have hlink : ∀ l : Option ρ, (∀ b ∈ l, Link mem a b) → ∃ t, Unfolds mem l t := by
    intro l hl
    cases l with
    | none => exact ⟨_, .null⟩
    | some b => exact h b (hl b rfl)
  cases ha : mem a with
  | std what => exact ⟨_, .std ha⟩
  | unknown => exact ⟨_, .unknown ha⟩
  | nested n =>
    cases n with
    | lomiri e =>
      obtain ⟨tn, hn⟩ := hlink e.nested fun b hb => by
        rw [Link, ha]
        exact List.mem_append_left _ (Option.mem_toList.mpr hb)
      obtain ⟨te, he⟩ := hlink e.earlier_ fun b hb => by
        rw [Link, ha]
        exact List.mem_append_right _ (Option.mem_toList.mpr hb)
      exact ⟨_, .lomiri ha hn he⟩
    | derived what np =>
      obtain ⟨t, ht⟩ := hlink np fun b hb => by
        rw [Link, ha]
        exact Option.mem_toList.mpr hb
      exact ⟨_, .derived ha ht⟩
    | bare np =>
      obtain ⟨t, ht⟩ := hlink np fun b hb => by
        rw [Link, ha]
        exact Option.mem_toList.mpr hb
      exact ⟨_, .bare ha ht⟩

/-- In an acyclic heap every pointer unfolds to a finite structure. -/
theorem Heap.exists_unfolds {h : Heap} (hacyc : Acyclic (Link h.mem)) (p : Option Nat) :
    ∃ t, Unfolds h.mem p t := by
  have hwf : WellFounded (flip (Link h.mem)) :=
    hacyc.wellFounded (Set.finite_lt_nat h.size) fun _ _ => lt_of_link
  cases p with
  | none => exact ⟨_, .null⟩
  | some a =>
    induction a using hwf.induction with
    | _ a ih => exact exists_unfolds_of_links ih

end Unfolding

end LomiriApi
