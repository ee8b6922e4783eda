import LomiriApi.Exception.Escape

/-!
# The `':'` in front of a nested exception

`follow_nested` appends the `':'` that introduces a nested exception to whatever
the output ends in. In a history entry, or in a nested exception that is not a
`lomiri::Exception`, that is the line of the exception itself. `to_string` prints
the history first, and so the `':'` of an exception that has both a history and a
nested exception lands on the last line of the history.

- `markedBlock`: the lines of a structure, each with whether it is the line of an
  exception, and whether an exception is nested in that.
- `Unmixed`: no exception that `to_string` prints has a history and a nested
  exception. Then each line is printed with the `':'` that it should have
  (`toOutLine_both`); otherwise one is not (`unmixed_both`).
- `Exception.colonsRight_iff`: the same about the text that `to_string` returns.
-/

namespace LomiriApi

open Lib OutLine

/-! ## Which line is that of an exception with a nested one -/

/-- A line of the reference tree. On the line of an exception, `hasNested` says whether an
exception is nested in it. On the line of a label there is nothing to say. -/
structure MarkedLine extends RefLine where
  hasNested : Option Bool
deriving DecidableEq, Repr

namespace MarkedLine

/-- The line of an exception. -/
def exception (n : Nat) (text : Text) (hasNested : Bool) : MarkedLine := ⟨⟨n, text⟩, hasNested⟩

/-- The line of a label. -/
def label (n : Nat) (text : Text) : MarkedLine := ⟨⟨n, text⟩, none⟩

end MarkedLine

namespace ExcTree

/-- There is an exception. -/
def isSome : ExcTree → Bool
  | null => false
  | _ => true

/-- The line above a history chain, for an exception at level `n`. -/
def markedLabel : ExcTree → Int → List MarkedLine
  | null, _ => []
  | _, n => [.label (n.toNat + 1) "Exception history"]

mutual

/-- The lines of an exception at level `n`: its own, then its history, then what is
nested in it. -/
def markedBlock : ExcTree → Int → List MarkedLine
  | null, _ => []
  | lomiri name reason nested earlier, n =>
    .exception n.toNat (nameAndReason name reason) nested.isSome ::
      (markedLabel earlier n ++ markedHistory earlier (n + 2)) ++ markedBlock nested (n + 1)
  | derived what nested, n =>
    .exception (foreignDepth n) (derived what nested).text nested.isSome ::
      markedBlock nested (n + 1)
  | bare nested, n =>
    .exception (foreignDepth n) (bare nested).text nested.isSome :: markedBlock nested (n + 1)
  | std what, n => [.exception (foreignDepth n) what false]
  | unknown, n => [.exception (foreignDepth n) unknown.text false]

/-- The entries of a history chain, oldest first, at level `n`. -/
def markedHistory : ExcTree → Int → List MarkedLine
  | lomiri name reason nested earlier, n =>
    markedHistory earlier n ++
      ([.label n.toNat ("Exception #" ++ decimal (earlier.chainLength + 1)),
        .exception (n.toNat + 1) (nameAndReason name reason) nested.isSome] ++
      markedBlock nested (n + 1 + 1))
  | _, _ => []

end

mutual

/-- No exception that `to_string` prints has both a history and a nested exception. Where
one has, the `':'` for the nested exception comes after the history. -/
def Unmixed : ExcTree → Prop
  | lomiri _ _ nested earlier =>
    (nested = null ∨ earlier = null) ∧ nested.Unmixed ∧ earlier.ChainUnmixed
  | derived _ nested => nested.Unmixed
  | bare nested => nested.Unmixed
  | _ => True

/-- The same for what is nested in the entries of a history chain, which are not
printed by `to_string` themselves. -/
def ChainUnmixed : ExcTree → Prop
  | lomiri _ _ nested earlier => nested.Unmixed ∧ earlier.ChainUnmixed
  | _ => True

end

end ExcTree

/-- If `line` is the line of an exception, it ends in `':'` exactly if an exception is
nested in that one. Labels always end in `':'`. -/
def MarkedLine.ColonRight (line : Text) (m : MarkedLine) : Prop :=
  ∀ b, m.hasNested = some b → (line.getLast? = some ':' ↔ b = true)

/-- `to_string(n, indent)` returns a text that shows the lines of the structure one by
one, and those of the exceptions end in `':'` where they should. -/
def Exception.ColonsRight {ρ : Type} (mem : ρ → Thrown ρ) (e : Exception ρ) (t : ExcTree) (n : Int)
    (indent : Text) : Prop :=
  ∃ s, Returns (fun fuel => toStringAt mem fuel e n indent) (.done s) ∧
    List.Forall₂ (fun line m => m.toRefLine.ReadFrom indent line ∧ m.ColonRight line)
      (s.splitOn '\n') (t.markedBlock n)

/-! ## The lines are those that are printed -/

namespace ExcTree

theorem forget_historyLabel (t : ExcTree) (n : Int) :
    (t.historyLabel n).map forget = (t.markedLabel n).map MarkedLine.toRefLine := by
  cases t <;> rfl

theorem forget_marked (t : ExcTree) :
    (∀ n, (t.outBlock n).map forget = (t.markedBlock n).map MarkedLine.toRefLine) ∧
      (∀ n, (t.outHistory n).map forget = (t.markedHistory n).map MarkedLine.toRefLine) := by
  induction t with
  | lomiri name reason nested earlier ihn ihe =>
    constructor
    · intro n
      rw [outBlock, markedBlock, forget_attach, List.map_append, List.map_cons, List.map_cons,
        List.map_append, List.map_append, forget_historyLabel, ihe.2, ihn.1]
      rfl
    · intro n
      rw [outHistory, markedHistory, List.map_append, List.map_append, List.map_append,
        List.map_cons, forget_attach, ihe.2, ihn.1]
      rfl
  | derived what nested ih =>
    refine ⟨fun n => ?_, fun _ => rfl⟩
    rw [outBlock, markedBlock, forget_attach, ih.1]
    rfl
  | bare nested ih =>
    refine ⟨fun n => ?_, fun _ => rfl⟩
    rw [outBlock, markedBlock, forget_attach, ih.1]
    rfl
  | null | std _ | unknown => exact ⟨fun _ => rfl, fun _ => rfl⟩

/-- Without the marks, they are the lines of the reference tree. -/
theorem markedBlock_toRefLine {t : ExcTree} (hl : t.EarlierLomiri) (ht : t.IsLomiri) (n : Nat) :
    (t.markedBlock n).map MarkedLine.toRefLine = t.refBlock n := by
  rw [← outBlock_forget hl ht, (forget_marked t).1]

theorem length_outBlock (t : ExcTree) (n : Int) :
    (t.outBlock n).length = (t.markedBlock n).length := by
  simpa using congrArg List.length ((forget_marked t).1 n)

theorem length_outHistory (t : ExcTree) (n : Int) :
    (t.outHistory n).length = (t.markedHistory n).length := by
  simpa using congrArg List.length ((forget_marked t).2 n)

/-- Lines are printed for every exception. -/
theorem outBlock_eq_nil_iff (t : ExcTree) (n : Int) : t.outBlock n = [] ↔ t = null := by
  rw [← List.length_eq_zero_iff, length_outBlock, List.length_eq_zero_iff]
  cases t <;> simp [markedBlock]

/-- An exception whose own line comes right before what is nested in it. -/
theorem attach_single (t : ExcTree) (d : Nat) (n : Int) (x : Text) :
    attach [⟨d, x, false⟩] (t.outBlock n) = ⟨d, x, t.isSome⟩ :: t.outBlock n := by
  cases h : t.outBlock n with
  | nil =>
    obtain rfl := (outBlock_eq_nil_iff t n).mp h
    show [OutLine.mk d x false] = [⟨d, x, false⟩]
    rfl
  | cons l ls =>
    have hsome : t.isSome = true := by
      cases t with
      | null => cases h
      | lomiri _ _ _ _ | derived _ _ | bare _ | std _ | unknown => rfl
    rw [hsome]
    show closeLast [⟨d, x, false⟩] ++ l :: ls = _
    rfl

end ExcTree

/-! ## Without a history in between, every `':'` is in its place -/

/-- The line with the `':'` that it should have; labels have one too. -/
def MarkedLine.toOutLine (m : MarkedLine) : OutLine := ⟨m.depth, m.text, m.hasNested.getD true⟩

namespace ExcTree

theorem toOutLine_markedLabel (t : ExcTree) (n : Int) :
    (t.markedLabel n).map MarkedLine.toOutLine = t.historyLabel n := by
  cases t <;> rfl

theorem toOutLine_both (t : ExcTree) :
    (t.Unmixed → ∀ n, (t.markedBlock n).map MarkedLine.toOutLine = t.outBlock n) ∧
      (t.ChainUnmixed →
        ∀ n, (t.markedHistory n).map MarkedLine.toOutLine = t.outHistory n) := by
  induction t with
  | lomiri name reason nested earlier ihn ihe =>
    constructor
    · rintro ⟨hmixed, hn, he⟩ n
      rw [markedBlock, outBlock, List.map_append, List.map_cons, List.map_append,
        toOutLine_markedLabel, ihe.2 he, ihn.1 hn]
      rcases hmixed with rfl | rfl
      · -- nothing nested
        show _ ++ [] = _
        rw [List.append_nil]
        rfl
      · -- no history
        show _ = attach [⟨n.toNat, nameAndReason name reason, false⟩] (outBlock nested (n + 1))
        rw [attach_single]
        rfl
    · rintro ⟨hn, he⟩ n
      rw [markedHistory, outHistory, attach_single, List.map_append, List.map_append, ihe.2 he,
        ihn.1 hn]
      rfl
  | derived what nested ih =>
    refine ⟨fun hn n => ?_, fun _ _ => rfl⟩
    rw [markedBlock, outBlock, attach_single, List.map_cons, ih.1 hn]
    rfl
  | bare nested ih =>
    refine ⟨fun hn n => ?_, fun _ _ => rfl⟩
    rw [markedBlock, outBlock, attach_single, List.map_cons, ih.1 hn]
    rfl
  | null | std _ | unknown => exact ⟨fun _ _ => rfl, fun _ _ => rfl⟩

end ExcTree

/-! ## With a history in between, one is not -/

section SideBySide

variable {α β : Type} {R : α → β → Prop}

theorem forall₂_of_append {l₁ l₂ : List α} {m₁ m₂ : List β} (hlen : l₁.length = m₁.length)
    (h : List.Forall₂ R (l₁ ++ l₂) (m₁ ++ m₂)) :
    List.Forall₂ R l₁ m₁ ∧ List.Forall₂ R l₂ m₂ := by
  have htake := List.forall₂_take_append _ _ _ h
  have hdrop := List.forall₂_drop_append _ _ _ h
  rw [← hlen, List.take_left] at htake
  rw [← hlen, List.drop_left] at hdrop
  exact ⟨htake, hdrop⟩

theorem forall₂_last {l : List α} {m : List β} {x : α} {y : β}
    (h : List.Forall₂ R (l ++ [x]) (m ++ [y])) : R x y := by
  have hlen := h.length_eq
  rw [List.length_append, List.length_append, List.length_singleton, List.length_singleton] at hlen
  obtain ⟨-, hlast⟩ := forall₂_of_append (Nat.add_right_cancel hlen) h
  cases hlast with
  | cons hxy _ => exact hxy

end SideBySide

namespace MarkedLine

/-- The last line is that of an exception with nothing nested in it. This is where the
`':'` goes that was meant for a line further up. -/
def LastLeaf (ms : List MarkedLine) : Prop := ∃ ms' m, ms = ms' ++ [m] ∧ m.hasNested = some false

theorem LastLeaf.append (ls : List MarkedLine) {ms : List MarkedLine} (h : LastLeaf ms) :
    LastLeaf (ls ++ ms) := by
  obtain ⟨ms', m, rfl, hm⟩ := h
  exact ⟨ls ++ ms', m, (List.append_assoc ..).symm, hm⟩

/-- An exception's own line, and what is nested in it. -/
theorem LastLeaf.own (d : Nat) (n : Int) (x : Text) {t : ExcTree}
    (h : t ≠ .null → LastLeaf (t.markedBlock n)) :
    LastLeaf (exception d x t.isSome :: t.markedBlock n) := by
  by_cases hnull : t = .null
  · subst hnull
    exact ⟨[], _, rfl, rfl⟩
  · exact (h hnull).append [_]

/-- Nothing is nested in the exception, and so its line has no `':'`. A stray one is what
goes wrong after a history. -/
def NoStray (l : OutLine) (m : MarkedLine) : Prop := m.hasNested = some false → l.colon = false

/-- A `':'` behind the line of an exception without nested ones. -/
theorem not_noStray_closeLast {ls : List OutLine} {ms : List MarkedLine} (hls : LastOpen ls)
    (hms : LastLeaf ms) : ¬ List.Forall₂ NoStray (closeLast ls) ms := by
  intro h
  obtain ⟨ls', l, rfl, -⟩ := hls
  obtain ⟨ms', m, rfl, hm⟩ := hms
  rw [closeLast_append] at h
  have hstray : true = false := forall₂_last h hm
  cases hstray

end MarkedLine

namespace ExcTree

open MarkedLine

theorem lastLeaf_both {t : ExcTree} (hl : t.EarlierLomiri) (ht : t ≠ null) :
    (∀ n, LastLeaf (t.markedBlock n)) ∧ (t.IsLomiri → ∀ n, LastLeaf (t.markedHistory n)) := by
  induction t with
  | null => exact absurd rfl ht
  | lomiri name reason nested earlier ihn ihe =>
    obtain ⟨hchain, hn, he⟩ := hl
    have hnested : ∀ m, nested ≠ null → LastLeaf (nested.markedBlock m) :=
      fun m hne => (ihn hn hne).1 m
    constructor
    · intro n
      by_cases hnull : nested = null
      · subst hnull
        rw [markedBlock, markedBlock, List.append_nil]
        by_cases hearlier : earlier = null
        · subst hearlier
          exact ⟨[], _, rfl, rfl⟩
        · exact ((ihe he hearlier).2 hchain _).append (_ :: markedLabel earlier n)
      · exact (hnested _ hnull).append _
    · intro _ n
      exact ((LastLeaf.own _ _ _ (hnested _)).append [_]).append _
  | derived what nested ih =>
    exact ⟨fun n => LastLeaf.own _ _ _ fun hne => (ih hl hne).1 _, False.elim⟩
  | bare nested ih =>
    exact ⟨fun n => LastLeaf.own _ _ _ fun hne => (ih hl hne).1 _, False.elim⟩
  | std what => exact ⟨fun _ => ⟨[], _, rfl, rfl⟩, False.elim⟩
  | unknown => exact ⟨fun _ => ⟨[], _, rfl, rfl⟩, False.elim⟩

theorem length_closeLast (ls : List OutLine) : (closeLast ls).length = ls.length := by
  simpa using congrArg List.length (forget_closeLast ls)

theorem length_historyLabel (t : ExcTree) (n : Int) :
    (t.historyLabel n).length = (t.markedLabel n).length := by
  simpa using congrArg List.length (forget_historyLabel t n)

/-- What is nested in an exception that is printed without stray `':'`. -/
theorem noStray_nested {earlier nested : ExcTree} (hchain : earlier.IsLomiri)
    (he : earlier.EarlierLomiri) (hnull : nested ≠ null) {name reason : Text} {n : Int}
    (h : List.Forall₂ NoStray ((lomiri name reason nested earlier).outBlock n)
      ((lomiri name reason nested earlier).markedBlock n)) :
    earlier = null ∧
      List.Forall₂ NoStray (nested.outBlock (n + 1)) (nested.markedBlock (n + 1)) := by
  have hattach : ∀ ls, attach ls (nested.outBlock (n + 1)) =
      closeLast ls ++ nested.outBlock (n + 1) := by
    intro ls
    cases hms : nested.outBlock (n + 1) with
    | nil => exact absurd ((outBlock_eq_nil_iff nested _).mp hms) hnull
    | cons m ms => rfl
  rw [outBlock, markedBlock, hattach] at h
  obtain ⟨hown, hnested⟩ := forall₂_of_append
    (by simp [length_closeLast, length_historyLabel, length_outHistory]) h
  refine ⟨?_, hnested⟩
  by_contra hearlier
  -- the `':'` is on the last line of the history
  have hleaf : LastLeaf (exception n.toNat (nameAndReason name reason) nested.isSome ::
      (markedLabel earlier n ++ markedHistory earlier (n + 2))) :=
    ((lastLeaf_both he hearlier).2 hchain _).append (_ :: markedLabel earlier n)
  exact not_noStray_closeLast (lastOpen_history hchain he _ _ _) hleaf hown

theorem unmixed_both {t : ExcTree} (hl : t.EarlierLomiri) :
    (∀ n, List.Forall₂ NoStray (t.outBlock n) (t.markedBlock n) → t.Unmixed) ∧
      (∀ n, List.Forall₂ NoStray (t.outHistory n) (t.markedHistory n) → t.ChainUnmixed) := by
  induction t with
  | lomiri name reason nested earlier ihn ihe =>
    obtain ⟨hchain, hn, he⟩ := hl
    constructor
    · intro n h
      by_cases hnull : nested = null
      · subst hnull
        rw [outBlock, markedBlock, markedBlock, List.append_nil] at h
        cases h with
        | cons _ h =>
          have hhistory := (forall₂_of_append (length_historyLabel earlier n) h).2
          exact ⟨.inl rfl, trivial, (ihe he).2 _ hhistory⟩
      · obtain ⟨rfl, hnested⟩ := noStray_nested hchain he hnull h
        exact ⟨.inr rfl, (ihn hn).1 _ hnested, trivial⟩
    · intro n h
      rw [outHistory, markedHistory, attach_single] at h
      obtain ⟨hhistory, hentry⟩ := forall₂_of_append (length_outHistory earlier n) h
      cases hentry with
      | cons _ hentry =>
        cases hentry with
        | cons _ hnested => exact ⟨(ihn hn).1 _ hnested, (ihe he).2 n hhistory⟩
  | derived what nested ih =>
    refine ⟨fun n h => ?_, fun _ _ => trivial⟩
    rw [outBlock, markedBlock, attach_single] at h
    cases h with
    | cons _ hnested => exact (ih hl).1 _ hnested
  | bare nested ih =>
    refine ⟨fun n h => ?_, fun _ _ => trivial⟩
    rw [outBlock, markedBlock, attach_single] at h
    cases h with
    | cons _ hnested => exact (ih hl).1 _ hnested
  | null | std _ | unknown => exact ⟨fun _ _ => trivial, fun _ _ => trivial⟩

end ExcTree

/-! ## What a line ends in -/

/-- A line ends in `':'` if the code put one there, or if all of the line is a margin
that does. -/
theorem getLast?_render_iff (indent : Text) {l : OutLine} (hl : l.text.getLast? ≠ some ':') :
    (l.render indent).getLast? = some ':' ↔
      l.colon = true ∨ (l.text = [] ∧ 0 < l.depth ∧ indent.getLast? = some ':') := by
  obtain ⟨d, x, b⟩ := l
  cases b with
  | true => simp [render]
  | false =>
    by_cases hnil : x = []
    · subst hnil
      simp [render, getLast?_getMargin_iff]
    · simpa [render, List.getLast?_append_of_ne_nil _ hnil, hnil] using hl

/-- A line that is printed as it should be. -/
theorem colonRight_toOutLine_iff {indent : Text} {m : MarkedLine}
    (hm : m.text.getLast? ≠ some ':') :
    m.ColonRight (m.toOutLine.render indent) ↔
      (indent.getLast? = some ':' → m.hasNested = some false → m.depth = 0 ∨ m.text ≠ []) := by
  obtain ⟨⟨d, x⟩, b⟩ := m
  have hend : ((MarkedLine.mk ⟨d, x⟩ b).toOutLine.render indent).getLast? = some ':' ↔
      b.getD true = true ∨ (x = [] ∧ 0 < d ∧ indent.getLast? = some ':') :=
    getLast?_render_iff indent hm
  rw [MarkedLine.ColonRight, hend]
  cases b with
  | none => simp
  | some hasNested =>
    cases hasNested with
    | true => simp
    | false => grind

/-! ## The lines of `to_string` -/

/-- Every line shows the exception or the label that it should. -/
theorem readFrom_marked {t : ExcTree} (hplain : ∀ x ∈ t.texts, Plain x) (n : Int)
    (indent : Text) :
    List.Forall₂ (fun l m => m.toRefLine.ReadFrom indent (l.render indent)) (t.outBlock n)
      (t.markedBlock n) := by
  have hforget : List.Forall₂ (fun (l : OutLine) (m : MarkedLine) => l.forget = m.toRefLine)
      (t.outBlock n) (t.markedBlock n) := by
    have heq := (ExcTree.forget_marked t).1 n
    rw [← List.forall₂_eq_eq_eq, List.forall₂_map_left_iff, List.forall₂_map_right_iff] at heq
    exact heq
  have hls := lineProperty_plain.outBlock hplain n
  refine ((List.forall₂_and_left _ _).mpr ⟨hls, hforget⟩).imp fun l m h => ?_
  rw [← h.2]
  exact readFrom_render h.1

theorem Exception.colonsRight_eq {ρ : Type} {mem : ρ → Thrown ρ} {e : Exception ρ} {t : ExcTree}
    (ht : e.UnfoldsTo mem t) (hl : t.EarlierLomiri) (hplain : ∀ x ∈ t.texts, Plain x) (n : Int)
    {indent : Text} (hindent : '\n' ∉ indent) :
    e.ColonsRight mem t n indent ↔
      List.Forall₂ (fun l m => m.ColonRight (l.render indent)) (t.outBlock n)
        (t.markedBlock n) := by
  have hls := lineProperty_plain.outBlock hplain n
  have hsplit := splitOn_printLines hindent hls (ht.outBlock_ne_nil n)
  constructor
  · rintro ⟨s, hs, hlines⟩
    cases hs.eq (toStringAt_returns ht hl n indent)
    rw [hsplit, List.forall₂_map_left_iff] at hlines
    exact hlines.imp fun _ _ h => h.2
  · intro hlines
    refine ⟨_, toStringAt_returns ht hl n indent, ?_⟩
    rw [hsplit, List.forall₂_map_left_iff]
    exact (readFrom_marked hplain n indent).mp (fun _ _ => And.intro) hlines

/-- A history before a nested exception moves its `':'`. -/
theorem Exception.ColonsRight.unmixed {ρ : Type} {mem : ρ → Thrown ρ} {e : Exception ρ}
    {t : ExcTree} (ht : e.UnfoldsTo mem t) (hl : t.EarlierLomiri)
    (hplain : ∀ x ∈ t.texts, Plain x) {n : Int} {indent : Text} (hindent : '\n' ∉ indent)
    (h : e.ColonsRight mem t n indent) : t.Unmixed := by
  have hlines := (colonsRight_eq ht hl hplain n hindent).mp h
  have hls := lineProperty_plain.outBlock hplain n
  refine (ExcTree.unmixed_both hl).1 n
    (((List.forall₂_and_left _ _).mpr ⟨hls, hlines⟩).imp fun l m hlm hleaf => ?_)
  by_contra hcolon
  have hend := (getLast?_render_iff indent hlm.1.2).mpr (.inl (eq_true_of_ne_false hcolon))
  have hnested : false = true := (hlm.2 false hleaf).mp hend
  cases hnested

/-- The `':'` behind the line of an exception says that an exception is nested in it
exactly if no exception that `to_string` prints has both a history and a nested
exception. Only for an indent that ends in `':'` itself, the exceptions without a
nested one must also have a text, unless they have no margin. -/
theorem Exception.colonsRight_iff {ρ : Type} {mem : ρ → Thrown ρ} {e : Exception ρ} {t : ExcTree}
    (ht : e.UnfoldsTo mem t) (hl : t.EarlierLomiri) (hplain : ∀ x ∈ t.texts, Plain x) (n : Int)
    {indent : Text} (hindent : '\n' ∉ indent) :
    e.ColonsRight mem t n indent ↔
      t.Unmixed ∧ (indent.getLast? = some ':' →
        ∀ m ∈ t.markedBlock n, m.hasNested = some false → m.depth = 0 ∨ m.text ≠ []) := by
  have hlines : t.Unmixed → (e.ColonsRight mem t n indent ↔
      ∀ m ∈ t.markedBlock n, indent.getLast? = some ':' → m.hasNested = some false →
        m.depth = 0 ∨ m.text ≠ []) := by
    intro hmixed
    have houtput := (ExcTree.toOutLine_both t).1 hmixed n
    rw [colonsRight_eq ht hl hplain n hindent, ← houtput, List.forall₂_map_left_iff,
      List.forall₂_same]
    refine forall₂_congr fun m hm => colonRight_toOutLine_iff ?_
    have hprinted : m.toOutLine ∈ t.outBlock n := houtput ▸ List.mem_map_of_mem hm
    exact (lineProperty_plain.outBlock hplain n _ hprinted).2
  constructor
  · intro h
    have hmixed := h.unmixed ht hl hplain hindent
    exact ⟨hmixed, fun hcolon m hm => (hlines hmixed).mp h m hm hcolon⟩
  · rintro ⟨hmixed, hleaves⟩
    exact (hlines hmixed).mpr fun m hm hcolon => hleaves hcolon m hm

theorem Exception.colonsRight_iff_shutdown :
    shutdownReport.ColonsRight shutdownMem shutdownTree 1 defaultIndent :=
  (Exception.colonsRight_iff shutdownReport_unfolds
    (by simp [shutdownTree, ExcTree.EarlierLomiri, ExcTree.IsLomiri]) (by decide) 1
    (by decide)).mpr ⟨by simp [shutdownTree, ExcTree.Unmixed, ExcTree.ChainUnmixed],
      fun hcolon => absurd hcolon (by decide)⟩

/-- A report that was made while another exception was handled. -/
def nestedReport : Exception Nat :=
  { shutdownException (some 3) "Finalization problem" with earlier_ := some 0 }

theorem Exception.colon_on_history :
    ¬ ∀ (mem : Nat → Thrown Nat) (e : Exception Nat) (t : ExcTree), e.UnfoldsTo mem t →
      t.EarlierLomiri → (∀ x ∈ t.texts, Plain x) → ∀ n indent, '\n' ∉ indent →
        e.ColonsRight mem t n indent := by
  intro h
  have hunfolds : nestedReport.UnfoldsTo shutdownMem (.lomiri "lomiri::ShutdownException"
      "Finalization problem" (.std "std::bad_alloc")
      (.lomiri "lomiri::InvalidArgumentException" "Step 1" .null .null)) :=
    ⟨_, _, .std (p := 3) rfl, .lomiri (p := 0) rfl .null .null, rfl⟩
  have hright := h _ _ _ hunfolds ⟨trivial, trivial, trivial, trivial, trivial⟩ (by decide) 0
    defaultIndent (by decide)
  have hmixed := hright.unmixed hunfolds ⟨trivial, trivial, trivial, trivial, trivial⟩ (by decide)
    (by decide)
  rcases hmixed.1 with hnull | hnull
  · cases hnull
  · cases hnull

end LomiriApi
