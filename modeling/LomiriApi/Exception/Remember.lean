import LomiriApi.Exception.Heap
import LomiriApi.Exception.Escape

/-!
# What `remember` keeps

An exception has a single earlier link, and `remember` overwrites it. So the
history that an exception had before is still reached afterwards only as far as
the remembered pointer leads to the same exceptions.

- `Chain mem p l`: following `get_earlier` from the pointer `p` goes through the
  exceptions `l`.
- `KeepsHistory`: the exact condition on the chains before a call under which
  nothing is lost (`Heap.remembersAll_iff`).
- `ShutdownRun`: the documented pattern, in which every step that fails does
  `ep = e.remember(ep)`. If no step overwrites a history, `what()` of the final
  exception mentions everything (`shutdownRun_mentions`).
-/

namespace LomiriApi

open Lib OutLine Relation

/-- Following `get_earlier` from the pointer goes through these exceptions. A
foreign exception has no earlier one. -/
inductive Chain {ρ : Type} (mem : ρ → Thrown ρ) : Option ρ → List ρ → Prop where
  | nil : Chain mem none []
  | foreign {p : ρ} : (mem p).Foreign → Chain mem (some p) [p]
  | cons {p : ρ} {e : Exception ρ} {l : List ρ} :
      mem p = .nested (.lomiri e) → Chain mem e.earlier_ l → Chain mem (some p) (p :: l)

/-- `get_earlier()` of the exception at `p` is `q`. -/
def EarlierLink {ρ : Type} (mem : ρ → Thrown ρ) (p q : ρ) : Prop :=
  ∃ e, mem p = .nested (.lomiri e) ∧ e.earlier_ = some q

/-- What a copy has in common with the original whatever is remembered: name,
reason and nested exception. -/
def Thrown.core {ρ : Type} : Thrown ρ → Thrown ρ
  | .nested (.lomiri e) => .nested (.lomiri { e with earlier_ := none })
  | t => t

/-- What an exception is shown as. -/
def Thrown.shownAs {ρ : Type} : Thrown ρ → Text
  | .nested (.lomiri e) => nameAndReason e.name_ e.reason_
  | .nested (.derived what _) => what
  | .nested (.bare _) => bareText
  | .std what => what
  | .unknown => unknownText

/-- Copies are shown alike. So it is enough to find a *copy* of what was remembered in the
chain of the final exception to know that its text is there. -/
theorem Thrown.shownAs_core {ρ : Type} (t : Thrown ρ) : t.core.shownAs = t.shownAs := by
  cases t with
  | nested e => cases e <;> rfl
  | std what | unknown => rfl

/-- The list up to the first `x`. -/
def upTo (x : Nat) : List Nat → List Nat
  | [] => []
  | a :: l => if a = x then [a] else a :: upTo x l

/-! ## Chains -/

section Chains

variable {ρ : Type} {mem mem' : ρ → Thrown ρ}

/-- A chain depends on the exceptions it goes through only. Other objects can be
overwritten. -/
theorem Chain.congr {p : Option ρ} {l : List ρ} (h : Chain mem p l)
    (hmem : ∀ a ∈ l, mem' a = mem a) : Chain mem' p l := by
  induction h with
  | nil => exact .nil
  | @foreign p hp => exact .foreign (by rwa [hmem p (List.mem_singleton_self p)])
  | @cons p e l he _ ih =>
    rw [List.forall_mem_cons] at hmem
    exact .cons (hmem.1.trans he) (ih hmem.2)

/-- Every exception of a chain can be reached from its start. -/
theorem Chain.reaches {p : Option ρ} {l : List ρ} (h : Chain mem p l) :
    ∀ b ∈ l, ∃ a ∈ p, ReflTransGen (Link mem) a b := by
  induction h with
  | nil => simp
  | @foreign p _ =>
    intro b hb
    exact ⟨p, rfl, List.mem_singleton.mp hb ▸ .refl⟩
  | @cons p e l he _ ih =>
    intro b hb
    refine ⟨p, rfl, ?_⟩
    rcases List.mem_cons.mp hb with rfl | hb
    · exact .refl
    · obtain ⟨a, ha, hab⟩ := ih b hb
      refine hab.head ?_
      rw [Link, he]
      exact List.mem_append_right _ (Option.mem_toList.mpr ha)

/-- The exceptions of a chain are shown, as part of the structure. -/
theorem Chain.shown {p : Option ρ} {l : List ρ} (h : Chain mem p l) {t : ExcTree}
    (ht : Unfolds mem p t) : ∀ b ∈ l, (mem b).shownAs ∈ t.shown := by
  induction h generalizing t with
  | nil => simp
  | @foreign p hp =>
    rw [List.forall_mem_singleton]
    cases ht with
    | lomiri he _ _ => exact absurd he (hp _)
    | derived he _ | bare he _ | std he | unknown he =>
      rw [he]
      exact List.mem_cons_self
  | @cons p e l he _ ih =>
    cases ht with
    | lomiri he' _ hearlier =>
      obtain rfl : _ = e := by simpa using he'.symm.trans he
      rw [List.forall_mem_cons, he]
      exact ⟨List.mem_cons_self, fun b hb =>
        List.mem_cons_of_mem _ (List.mem_append_right _ (ih hearlier b hb))⟩
    | derived he' _ | bare he' _ | std he' | unknown he' => cases he'.symm.trans he

end Chains

section UpTo

variable {mem : Nat → Thrown Nat} {p : Option Nat} {l : List Nat} {x : Nat}

theorem upTo_subset (x : Nat) (l : List Nat) : ∀ b ∈ upTo x l, b ∈ l := by
  induction l with
  | nil => simp [upTo]
  | cons a l ih =>
    intro b hb
    rw [upTo] at hb
    split at hb
    · exact List.mem_cons.mpr (.inl (List.mem_singleton.mp hb))
    · exact (List.mem_cons.mp hb).elim (fun h => List.mem_cons.mpr (.inl h))
        fun h => List.mem_cons_of_mem _ (ih b h)

/-- The first exception of a chain is never cut off, also if it is `x` itself. -/
theorem head_mem_upTo (x a : Nat) (l : List Nat) : a ∈ upTo x (a :: l) := by
  rw [upTo]
  split <;> exact List.mem_cons_self

/-- Where a pointer leads to is never cut off from its chain. -/
theorem Chain.head_mem_upTo (h : Chain mem p l) (x : Nat) : ∀ a ∈ p, a ∈ upTo x l := by
  cases h with
  | nil => simp
  | foreign _ | cons _ _ =>
    intro a ha
    obtain rfl := Option.mem_some.mp ha
    exact LomiriApi.head_mem_upTo x _ _

/-- Before `x`, the next exception of the chain still belongs to it. -/
theorem Chain.next_mem_upTo (h : Chain mem p l) {b c : Nat} (hb : b ∈ upTo x l) (hbx : b ≠ x)
    (hbc : EarlierLink mem b c) : c ∈ upTo x l := by
  obtain ⟨f, hf, hc⟩ := hbc
  induction h with
  | nil => cases hb
  | foreign hp =>
    obtain rfl := List.mem_singleton.mp (upTo_subset x _ b hb)
    exact absurd hf (hp f)
  | @cons p e l he hl ih =>
    rw [upTo] at hb ⊢
    split at hb
    case isTrue hpx => exact absurd ((List.mem_singleton.mp hb).trans hpx) hbx
    case isFalse hpx =>
      rw [if_neg hpx]
      rcases List.mem_cons.mp hb with rfl | hb
      · obtain rfl : e = f := by simpa using he.symm.trans hf
        exact List.mem_cons_of_mem _ (hl.head_mem_upTo x c hc)
      · exact List.mem_cons_of_mem _ (ih hb)

/-- A relation that follows the chain before `x` reaches all of it up to `x`. -/
theorem Chain.reaches_upTo {r : Nat → Nat → Prop} (h : Chain mem p l)
    (hr : ∀ a ∈ l, ∀ c, a ≠ x → EarlierLink mem a c → r a c) :
    ∀ b ∈ upTo x l, ∃ a ∈ p, ReflTransGen r a b := by
  induction h with
  | nil => simp [upTo]
  | @foreign p _ =>
    intro b hb
    exact ⟨p, rfl, List.mem_singleton.mp (upTo_subset x _ b hb) ▸ .refl⟩
  | @cons p e l he hl ih =>
    rw [List.forall_mem_cons] at hr
    intro b hb
    refine ⟨p, rfl, ?_⟩
    rw [upTo] at hb
    split at hb
    case isTrue => exact List.mem_singleton.mp hb ▸ .refl
    case isFalse hpx =>
      rcases List.mem_cons.mp hb with rfl | hb
      · exact .refl
      · obtain ⟨a, ha, hab⟩ := ih hr.2 b hb
        exact hab.head (hr.1 a hpx ⟨e, he, ha⟩)

end UpTo

/-! ## One call of `remember` -/

namespace Heap

variable {h : Heap} {x : Nat} {e : Exception Nat} (he : h.mem x = .nested (.lomiri e))
  {ep : Option Nat} (hep : ∀ q ∈ ep, q < h.size)

/-- The exception itself now remembers `ep`, and no longer what it remembered before. -/
theorem mem_remember_self :
    (h.remember he ep hep).1.mem x = .nested (.lomiri { e with earlier_ := ep }) := by
  rw [mem_remember, if_pos (.inl rfl)]

/-- The copy that `remember` returns remembers `ep` as well. -/
theorem mem_remember_copy :
    (h.remember he ep hep).1.mem h.size = .nested (.lomiri { e with earlier_ := ep }) := by
  rw [mem_remember, if_pos (.inr rfl)]

/-- No other object is changed by `remember`; in particular not the exceptions that `ep`
leads to, unless the exception is among them. -/
theorem mem_remember_of_ne {q : Nat} (hx : q ≠ x) (hq : q < h.size) :
    (h.remember he ep hep).1.mem q = h.mem q := by
  rw [mem_remember, if_neg (not_or.mpr ⟨hx, Nat.ne_of_lt hq⟩)]

/-- `remember` leaves name, reason and nested exception of all objects alone. -/
theorem core_remember {q : Nat} (hq : q < h.size) :
    ((h.remember he ep hep).1.mem q).core = (h.mem q).core := by
  by_cases hx : q = x
  · rw [hx, mem_remember_self, he]
    rfl
  · rw [mem_remember_of_ne he hep hx hq]

include hep in
/-- The exceptions of a chain exist. -/
theorem lt_of_chain {H : List Nat} (hH : Chain h.mem ep H) : ∀ b ∈ H, b < h.size := by
  intro b hb
  obtain ⟨a, ha, hab⟩ := hH.reaches b hb
  exact lt_of_reaches (hep a ha) hab

/-- What `get_earlier` reaches from the returned pointer: the remembered chain, but
not beyond the object itself. -/
theorem reaches_remember_iff {H : List Nat} (hH : Chain h.mem ep H) (b : Nat) :
    TransGen (EarlierLink (h.remember he ep hep).1.mem) h.size b ↔ b ∈ upTo x H := by
  constructor
  · intro hb
    induction hb with
    | single hb =>
      obtain ⟨f, hf, hfb⟩ := hb
      obtain rfl : { e with earlier_ := ep } = f := by
        simpa using (mem_remember_copy he hep).symm.trans hf
      exact hH.head_mem_upTo x _ hfb
    | @tail b c _ hbc ih =>
      by_cases hbx : b = x
      · obtain ⟨f, hf, hfc⟩ := hbc
        obtain rfl : { e with earlier_ := ep } = f := by
          rw [hbx] at hf
          simpa using (mem_remember_self he hep).symm.trans hf
        exact hH.head_mem_upTo x _ hfc
      · have hlt : b < h.size := lt_of_chain hep hH b (upTo_subset x H b ih)
        rw [EarlierLink, mem_remember_of_ne he hep hbx hlt] at hbc
        exact hH.next_mem_upTo ih hbx hbc
  · intro hb
    obtain ⟨a, ha, hab⟩ := hH.reaches_upTo
      (r := EarlierLink (h.remember he ep hep).1.mem) (fun a haH c hax hac => by
        rwa [EarlierLink, mem_remember_of_ne he hep hax (lt_of_chain hep hH a haH)]) b hb
    exact TransGen.head' ⟨_, mem_remember_copy he hep, ha⟩ hab

/-- After `p = x.remember(ep)`, `get_earlier` leads from `p` to a copy of every
exception of `C` and `H`. -/
def RemembersAll (C H : List Nat) : Prop :=
  ∀ a ∈ C ++ H, ∃ b,
    TransGen (EarlierLink (h.remember he ep hep).1.mem) (h.remember he ep hep).2 b ∧
      ((h.remember he ep hep).1.mem b).core = (h.mem a).core

/-- Before the call: every exception of `C` and `H` has a copy in `H`, where `H`
counts only as far as `x` itself. -/
def KeepsHistory (h : Heap) (x : Nat) (C H : List Nat) : Prop :=
  ∀ a ∈ C ++ H, ∃ b ∈ upTo x H, (h.mem b).core = (h.mem a).core

/-- Whether a call loses something can be told from the two chains before the call. The
chain after it is the one of `ep` with the copy in front, up to where it meets the
overwritten exception. -/
theorem remembersAll_iff_keepsHistory {H : List Nat} (hH : Chain h.mem ep H) (C : List Nat) :
    RemembersAll he hep C H ↔ h.KeepsHistory x C H := by
  have hcore : ∀ b ∈ upTo x H, ((h.remember he ep hep).1.mem b).core = (h.mem b).core :=
    fun b hb => core_remember he hep (lt_of_chain hep hH b (upTo_subset x H b hb))
  rw [RemembersAll, remember_snd]
  refine forall₂_congr fun a _ => exists_congr fun b => ?_
  rw [reaches_remember_iff he hep hH]
  exact and_congr_right fun hb => by rw [hcore b hb]

end Heap

/-! ## Steps that fail one after the other -/

section Structure

variable {ρ : Type} {mem : ρ → Thrown ρ}

/-- A pointer has at most one unfolding: an object has one shape, and the shape gives the
pointers to follow. -/
theorem Unfolds.unique {p : Option ρ} {t t' : ExcTree} (h : Unfolds mem p t)
    (h' : Unfolds mem p t') : t = t' := by
  induction h generalizing t' with
  | null =>
    cases h'
    rfl
  | lomiri he _ _ ihn ihe =>
    cases h' with
    | lomiri he' hn' hearlier' =>
      obtain rfl := by simpa using he.symm.trans he'
      rw [ihn hn', ihe hearlier']
    | derived he' _ | bare he' _ | std he' | unknown he' => cases he.symm.trans he'
  | derived he _ ih =>
    cases h' with
    | derived he' hn' =>
      obtain ⟨rfl, rfl⟩ := by simpa using he.symm.trans he'
      rw [ih hn']
    | lomiri he' _ _ | bare he' _ | std he' | unknown he' => cases he.symm.trans he'
  | bare he _ ih =>
    cases h' with
    | bare he' hn' =>
      obtain rfl := by simpa using he.symm.trans he'
      rw [ih hn']
    | lomiri he' _ _ | derived he' _ | std he' | unknown he' => cases he.symm.trans he'
  | std he =>
    cases h' with
    | std he' =>
      obtain rfl := by simpa using he.symm.trans he'
      rfl
    | lomiri he' _ _ | derived he' _ | bare he' _ | unknown he' => cases he.symm.trans he'
  | unknown he =>
    cases h' with
    | unknown _ => rfl
    | lomiri he' _ _ | derived he' _ | bare he' _ | std he' => cases he.symm.trans he'

/-- A link leads to a smaller structure. -/
theorem Unfolds.link {a b : ρ} {t : ExcTree} (h : Unfolds mem (some a) t) (hab : Link mem a b) :
    ∃ t', Unfolds mem (some b) t' ∧ t'.size < t.size := by
  unfold Link at hab
  cases h with
  | lomiri he hn hearlier =>
    rw [he] at hab
    rcases List.mem_append.mp hab with hb | hb
    · rw [Option.mem_toList.mp hb] at hn
      exact ⟨_, hn, by rw [ExcTree.size]; omega⟩
    · rw [Option.mem_toList.mp hb] at hearlier
      exact ⟨_, hearlier, by rw [ExcTree.size]; omega⟩
  | derived he hn | bare he hn =>
    rw [he] at hab
    rw [Option.mem_toList.mp hab] at hn
    exact ⟨_, hn, by rw [ExcTree.size]; omega⟩
  | std he | unknown he =>
    rw [he] at hab
    cases hab

/-- An object that unfolds is not reachable from itself. -/
theorem Unfolds.not_reaches_self {a : ρ} {t : ExcTree} (h : Unfolds mem (some a) t) :
    ¬ TransGen (Link mem) a a := by
  have hsmaller : ∀ {b}, TransGen (Link mem) a b →
      ∃ t', Unfolds mem (some b) t' ∧ t'.size < t.size := by
    intro b hab
    induction hab with
    | single hab => exact h.link hab
    | tail _ hbc ih =>
      obtain ⟨t', ht', hlt⟩ := ih
      obtain ⟨t'', ht'', hlt'⟩ := ht'.link hbc
      exact ⟨t'', ht'', hlt'.trans hlt⟩
  intro ha
  obtain ⟨t', ht', hlt⟩ := hsmaller ha
  rw [h.unique ht'] at hlt
  exact Nat.lt_irrefl _ hlt

end Structure

/-- The steps of a shutdown that fail, one after the other. A step may create any
objects; the exception `x` that it fails with may have a history of its own; then
`ep = x.remember(ep)`. `owed` collects the exceptions of the failing steps and
those in their histories. Every step meets the condition `Cond`. -/
inductive ShutdownRun (Cond : Heap → Nat → Option Nat → Prop) :
    Heap → Option Nat → List (Thrown Nat) → Prop where
  | start (h : Heap) : ShutdownRun Cond h none []
  | failure {h h₁ : Heap} {ep : Option Nat} {owed : List (Thrown Nat)}
      (hrun : ShutdownRun Cond h ep owed) (hext : h.Extends h₁)
      {x : Nat} {e : Exception Nat} (he : h₁.mem x = .nested (.lomiri e))
      {C : List Nat} (hC : Chain h₁.mem e.earlier_ C) (hep : ∀ q ∈ ep, q < h₁.size)
      (hcond : Cond h₁ x ep) :
      ShutdownRun Cond (h₁.remember he ep hep).1 (some (h₁.remember he ep hep).2)
        (owed ++ (x :: C).map fun a => (h₁.mem a).core)

/-- `what()` passes all of such a structure on: only `lomiri::Exception`s in its
histories, and no NUL at which the C string would end. -/
def ExcTree.Renderable (t : ExcTree) : Prop := t.EarlierLomiri ∧ ∀ x ∈ t.texts, NulFree x

/-- A step whose exception has a finite structure that can be rendered, is not
reachable from the exceptions remembered before (the link that `remember` sets would
close a loop), and has no history that they do not contain. -/
def KeepsAll (h : Heap) (x : Nat) (ep : Option Nat) : Prop :=
  (∃ t, Unfolds h.mem (some x) t ∧ t.Renderable) ∧
    (∀ q ∈ ep, ¬ ReflTransGen (Link h.mem) q x) ∧
      ∀ e C H, h.mem x = .nested (.lomiri e) → Chain h.mem e.earlier_ C → Chain h.mem ep H →
        h.KeepsHistory x C H

/-- If a step failed, `what()` of the final exception mentions everything. -/
def Mentions (h : Heap) (ep : Option Nat) (owed : List (Thrown Nat)) : Prop :=
  owed ≠ [] → ∃ p f s, ep = some p ∧ h.mem p = .nested (.lomiri f) ∧
    Returns (fun fuel => what h.mem fuel f) (.done s) ∧ ∀ c ∈ owed, c.shownAs <:+: s

/-- What the steps keep: the remembered chain is finite, can be rendered and has a
copy of everything that is owed. -/
structure Accumulated (h : Heap) (ep : Option Nat) (owed : List (Thrown Nat)) : Prop where
  exists_tree : ∃ t, Unfolds h.mem ep t ∧ t.Renderable ∧ t.IsLomiri
  exists_chain : ∃ H, Chain h.mem ep H ∧ ∀ c ∈ owed, ∃ b ∈ H, (h.mem b).core = c
  ep_lt : ∀ q ∈ ep, q < h.size

/-- New objects do not matter. -/
theorem Accumulated.extends {h h₁ : Heap} {ep : Option Nat} {owed : List (Thrown Nat)}
    (hacc : Accumulated h ep owed) (hext : h.Extends h₁) : Accumulated h₁ ep owed := by
  obtain ⟨⟨t, ht, htree⟩, ⟨H, hH, howed⟩, hep⟩ := hacc
  have hlt := Heap.lt_of_chain hep hH
  refine ⟨⟨t, ht.congr fun a ha q hq => hext.mem_eq (Heap.lt_of_reaches (hep a ha) hq), htree⟩,
    ⟨H, hH.congr fun b hb => hext.mem_eq (hlt b hb), fun c hc => ?_⟩,
    fun q hq => (hep q hq).trans_le hext.size_le⟩
  obtain ⟨b, hb, hbc⟩ := howed c hc
  exact ⟨b, hb, by rw [hext.mem_eq (hlt b hb), hbc]⟩

/-- The copy unfolds to the nested exceptions of the original and the remembered ones. -/
theorem Unfolds.remember {h : Heap} {ep : Option Nat} {x : Nat} {e : Exception Nat}
    {t tx : ExcTree} (ht : Unfolds h.mem ep t) (htree : t.Renderable ∧ t.IsLomiri)
    (htx : Unfolds h.mem (some x) tx) (htxr : tx.Renderable)
    (he : h.mem x = .nested (.lomiri e)) (hep : ∀ q ∈ ep, q < h.size)
    (hreach : ∀ q ∈ ep, ¬ ReflTransGen (Link h.mem) q x) :
    ∃ t', Unfolds (h.remember he ep hep).1.mem (some h.size) t' ∧ t'.Renderable ∧
      t'.IsLomiri := by
  have hself := htx.not_reaches_self
  obtain ⟨⟨htl, hnul⟩, htlomiri⟩ := htree
  cases htx with
  | @lomiri _ e' tn te he' hn _ =>
    obtain rfl : e' = e := by simpa using he'.symm.trans he
    obtain ⟨htxl, hxnul⟩ := htxr
    rw [ExcTree.texts, List.forall_mem_cons, List.forall_mem_cons, List.forall_mem_append] at hxnul
    obtain ⟨hname, hreason, hnnul, -⟩ := hxnul
    have hcopynul : ∀ y ∈ (ExcTree.lomiri e'.name_ e'.reason_ tn t).texts, NulFree y := by
      rw [ExcTree.texts, List.forall_mem_cons, List.forall_mem_cons, List.forall_mem_append]
      exact ⟨hname, hreason, hnnul, hnul⟩
    refine ⟨_, .lomiri (Heap.mem_remember_copy he hep) (hn.congr fun a ha q hq => ?_)
      (ht.congr fun a ha q hq => ?_), ⟨⟨htlomiri, htxl.2.1, htl⟩, hcopynul⟩, trivial⟩
    · have hlink : Link h.mem x a := by
        rw [Link, he]
        exact List.mem_append_left _ (Option.mem_toList.mpr ha)
      refine Heap.mem_remember_of_ne he hep ?_
        (Heap.lt_of_reaches (Heap.lt_of_link hlink).2 hq)
      rintro rfl
      exact hself (TransGen.head' hlink hq)
    · refine Heap.mem_remember_of_ne he hep ?_ (Heap.lt_of_reaches (hep a ha) hq)
      rintro rfl
      exact hreach a ha hq
  | derived he' _ | bare he' _ | std he' | unknown he' => cases he'.symm.trans he

/-- The step lemma of a shutdown: what had accumulated is still there, and the failed step
and its own history are added. -/
theorem Accumulated.remember {h : Heap} {ep : Option Nat} {owed : List (Thrown Nat)}
    (hacc : Accumulated h ep owed) {x : Nat} {e : Exception Nat}
    (he : h.mem x = .nested (.lomiri e)) {C : List Nat} (hC : Chain h.mem e.earlier_ C)
    (hep : ∀ q ∈ ep, q < h.size) (hkeeps : KeepsAll h x ep) :
    Accumulated (h.remember he ep hep).1 (some (h.remember he ep hep).2)
      (owed ++ (x :: C).map fun a => (h.mem a).core) := by
  obtain ⟨⟨t, ht, htree⟩, ⟨H, hH, howed⟩, -⟩ := hacc
  obtain ⟨⟨tx, htx, htxr⟩, hreach, hkeeps⟩ := hkeeps
  have hxlt : x < h.size := Heap.lt_of_mem_eq_nested he
  have hlt := Heap.lt_of_chain hep hH
  have hne : ∀ b ∈ H, b ≠ x := by
    rintro b hb rfl
    obtain ⟨a, ha, hab⟩ := hH.reaches b hb
    exact hreach a ha hab
  refine ⟨?_, ⟨h.size :: H, ?_, ?_⟩, ?_⟩
  · rw [Heap.remember_snd]
    exact ht.remember htree htx htxr he hep hreach
  · rw [Heap.remember_snd]
    exact .cons (Heap.mem_remember_copy he hep)
      (hH.congr fun b hb => Heap.mem_remember_of_ne he hep (hne b hb) (hlt b hb))
  · intro c hc
    rcases List.mem_append.mp hc with hc | hc
    · obtain ⟨b, hb, rfl⟩ := howed c hc
      exact ⟨b, List.mem_cons_of_mem _ hb, Heap.core_remember he hep (hlt b hb)⟩
    · obtain ⟨a, ha, rfl⟩ := List.mem_map.mp hc
      rcases List.mem_cons.mp ha with rfl | ha
      · -- the exception itself
        refine ⟨h.size, List.mem_cons_self, ?_⟩
        rw [Heap.mem_remember_copy, he]
        rfl
      · -- its own history
        obtain ⟨b, hb, hba⟩ := hkeeps e C H he hC hH a (List.mem_append_left _ ha)
        have hbH := upTo_subset x H b hb
        exact ⟨b, List.mem_cons_of_mem _ hbH, (Heap.core_remember he hep (hlt b hbH)).trans hba⟩
  · intro q hq
    rw [Heap.remember_snd] at hq
    obtain rfl := Option.mem_some.mp hq
    rw [Heap.size_remember]
    exact Nat.lt_succ_self _

/-- By induction on the shutdown: the exceptions that are owed have accumulated at its
end. -/
theorem shutdownRun_accumulated {h : Heap} {ep : Option Nat} {owed : List (Thrown Nat)}
    (hrun : ShutdownRun KeepsAll h ep owed) : Accumulated h ep owed := by
  induction hrun with
  | start h => exact ⟨⟨_, .null, ⟨trivial, by simp [ExcTree.texts]⟩, trivial⟩,
    ⟨[], .nil, by simp⟩, by simp⟩
  | failure _ hext he hC hep hcond ih => exact (ih.extends hext).remember he hC hep hcond

/-- What has accumulated is mentioned by `what()`: it is shown somewhere in the text, and
no NUL ends the text before. -/
theorem Accumulated.mentions {h : Heap} {ep : Option Nat} {owed : List (Thrown Nat)}
    (hacc : Accumulated h ep owed) : Mentions h ep owed := by
  intro hne
  obtain ⟨⟨t, ht, ⟨htl, hnul⟩, htlomiri⟩, ⟨H, hH, howed⟩, -⟩ := hacc
  obtain ⟨c, hc⟩ := List.exists_mem_of_ne_nil owed hne
  obtain ⟨b, hb, -⟩ := howed c hc
  rcases unfolds_chain ht htlomiri with ⟨rfl, -⟩ | ⟨p, f, rfl, hf, hu⟩
  · cases hH
    cases hb
  · refine ⟨p, f, _, rfl, hf, what_returns hu htl hnul, fun c hc => ?_⟩
    obtain ⟨b, hb, rfl⟩ := howed c hc
    rw [Thrown.shownAs_core]
    exact infix_of_shown htl htlomiri 0 defaultIndent (hH.shown ht b hb)

/-- **What `remember` keeps.** One call of `remember` keeps all that was remembered
before exactly when the remembered chain already has a copy of the object's own
history (and does not come back to the object before its end); a shutdown whose
steps all keep everything mentions everything. -/
theorem remember_keeps_iff (h : Heap) (x : Nat) (e : Exception Nat)
    (he : h.mem x = .nested (.lomiri e)) (ep : Option Nat) (hep : ∀ q ∈ ep, q < h.size)
    (C H : List Nat) (_hC : Chain h.mem e.earlier_ C) (hH : Chain h.mem ep H) :
    (Heap.RemembersAll he hep C H ↔ h.KeepsHistory x C H) ∧
      ∀ h ep owed, ShutdownRun KeepsAll h ep owed → Mentions h ep owed :=
  ⟨Heap.remembersAll_iff_keepsHistory he hep hH C,
    fun _ _ _ hrun => (shutdownRun_accumulated hrun).mentions⟩

/-- The first step of a shutdown fails. -/
def firstFailure : Heap :=
  ⟨[.nested (.lomiri (invalidArgumentException none "Step 1"))], by decide⟩

theorem firstFailure_mem :
    firstFailure.mem 0 = .nested (.lomiri (invalidArgumentException none "Step 1")) := rfl

/-- The objects after `ep = e.remember(nullptr)`. -/
def firstRemembered : Heap := (firstFailure.remember firstFailure_mem none (by simp)).1

/-- The first call of `remember` loses nothing, since there is nothing to lose. -/
theorem firstFailure_keepsAll : KeepsAll firstFailure 0 none := by
  refine ⟨⟨_, .lomiri firstFailure_mem .null .null, ⟨trivial, trivial, trivial⟩, by decide⟩,
    by simp, ?_⟩
  intro e C H he hC hH
  obtain rfl : invalidArgumentException none "Step 1" = e := by
    simpa using firstFailure_mem.symm.trans he
  cases hC
  cases hH
  simp [Heap.KeepsHistory]

/-- After one failed step, its exception is mentioned and nothing has been overwritten. -/
theorem remember_keeps_iff_firstFailure :
    (∃ f s, firstRemembered.mem 1 = .nested (.lomiri f) ∧
      Returns (fun fuel => what firstRemembered.mem fuel f) (.done s) ∧
        "lomiri::InvalidArgumentException: Step 1".toList <:+: s) ∧
      Heap.RemembersAll firstFailure_mem (by simp : ∀ q ∈ none, q < firstFailure.size) [] [] := by
  have hrun : ShutdownRun KeepsAll firstRemembered (some 1) _ :=
    .failure (.start firstFailure) (List.prefix_refl _) firstFailure_mem .nil (by simp)
      firstFailure_keepsAll
  obtain ⟨hcall, hruns⟩ := remember_keeps_iff firstFailure 0 _ firstFailure_mem none (by simp)
    [] [] .nil .nil
  constructor
  · obtain ⟨p, f, s, hp, hf, hs, hmention⟩ := hruns _ _ _ hrun (by simp)
    obtain rfl := Option.some.inj hp
    exact ⟨f, s, hf, hs, hmention _ (List.mem_singleton_self _)⟩
  · exact hcall.mpr (by simp [Heap.KeepsHistory])

/-- Then the second step fails with the `ShutdownException` of a component, which
remembers an exception of its own. -/
def componentShutdown : Exception Nat :=
  { shutdownException none "Step 2" with earlier_ := some 2 }

/-- The objects when the second step has failed: the exception of the component, and the
one that it remembers. -/
def secondFailure : Heap :=
  ⟨firstRemembered.objs ++ [.nested (.lomiri (resourceException none "Sub-step")),
    .nested (.lomiri componentShutdown)], by decide⟩

/-- The component has added objects and changed none. -/
theorem secondFailure_extends : firstRemembered.Extends secondFailure := List.prefix_append _ _

theorem secondFailure_mem : secondFailure.mem 3 = .nested (.lomiri componentShutdown) := rfl

theorem secondFailure_pointer : ∀ q ∈ some 1, q < secondFailure.size := by decide

/-- The objects after `ep = e.remember(ep)`. -/
def secondRemembered : Heap :=
  (secondFailure.remember secondFailure_mem (some 1) secondFailure_pointer).1

/-- The exception of the component now leads to the first failure. What it remembered of
its own has gone. -/
theorem secondRemembered_unfolds :
    Exception.UnfoldsTo secondRemembered.mem { componentShutdown with earlier_ := some 1 }
      (.lomiri "lomiri::ShutdownException" "Step 2" .null
        (.lomiri "lomiri::InvalidArgumentException" "Step 1" .null .null)) :=
  ⟨_, _, .null, .lomiri (p := 1) rfl .null .null, rfl⟩

/-- The sub-step is lost: it was remembered by the exception of the component, which was
then made to remember the first failure. -/
theorem remember_loses_subStep :
    (¬ ∀ (h : Heap) (x : Nat) (e : Exception Nat) (he : h.mem x = .nested (.lomiri e))
      (ep : Option Nat) (hep : ∀ q ∈ ep, q < h.size) (C H : List Nat),
      Chain h.mem e.earlier_ C → Chain h.mem ep H → Heap.RemembersAll he hep C H) ∧
      ¬ ∀ h ep owed, ShutdownRun (fun _ _ _ => True) h ep owed → Mentions h ep owed := by
  have hC : Chain secondFailure.mem (some 2) [2] := .cons rfl .nil
  have hH : Chain secondFailure.mem (some 1) [1] := .cons rfl .nil
  constructor
  · intro hall
    have hkeeps := (Heap.remembersAll_iff_keepsHistory secondFailure_mem secondFailure_pointer
      hH [2]).mp (hall _ _ _ secondFailure_mem _ secondFailure_pointer [2] [1] hC hH)
    exact absurd hkeeps (by unfold Heap.KeepsHistory; decide)
  · intro hall
    have hfirst : ShutdownRun (fun _ _ _ => True) firstRemembered (some 1) _ :=
      .failure (.start firstFailure) (List.prefix_refl _) firstFailure_mem .nil (by simp) trivial
    have hrun : ShutdownRun (fun _ _ _ => True) secondRemembered (some 4) _ :=
      .failure hfirst secondFailure_extends secondFailure_mem hC secondFailure_pointer trivial
    obtain ⟨p, f, s, hp, hf, hs, hmention⟩ := hall _ _ _ hrun (by simp)
    obtain rfl := Option.some.inj hp
    have hcopy : Thrown.nested (.lomiri { componentShutdown with earlier_ := some 1 })
        = Thrown.nested (.lomiri f) := hf
    cases hcopy
    have htext := hs.eq ⟨_, fun _ => what_eq secondRemembered_unfolds
      (by simp [ExcTree.EarlierLomiri, ExcTree.IsLomiri])⟩
    have hlost := hmention (.nested (.lomiri (resourceException none "Sub-step"))) (by decide)
    rw [Result.done.inj htext] at hlost
    exact absurd hlost (by decide +kernel)

end LomiriApi
