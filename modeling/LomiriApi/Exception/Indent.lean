import LomiriApi.Exception.Escape

/-!
# Indenting a rendered exception

The documentation of `to_string(indent_level, indent)` says that the indent is
prepended `indent_level` times to each line. The code puts the margin in front of
every line that it starts itself (`outBlock_add`), at one place for each kind of
line; the lines that a newline inside of a text starts get none. So it keeps its
promise exactly for texts of one line: `Exception.indentsEveryLine_iff`.
-/

namespace LomiriApi

open Lib OutLine

/-- `to_string(n, indent)` is `to_string(0, indent)` with `n` copies of the indent in
front of each line. -/
def Exception.IndentsEveryLine {ρ : Type} (mem : ρ → Thrown ρ) (e : Exception ρ) (n : Nat)
    (indent : Text) : Prop :=
  ∃ s₀ sₙ, Returns (fun fuel => toStringAt mem fuel e 0 indent) (.done s₀) ∧
    Returns (fun fuel => toStringAt mem fuel e n indent) (.done sₙ) ∧
    sₙ = prefixLines '\n' (List.replicate n indent).flatten s₀

/-! ## Margins -/

/-- Margins add up over the levels. Every statement on rendering a structure deeper down
comes from this one. -/
theorem getMargin_add (n d : Nat) (indent : Text) :
    getMargin (n + d) indent = getMargin n indent ++ getMargin d indent := by
  induction d with
  | zero => simp [getMargin]
  | succ d ih => rw [← Nat.add_assoc, getMargin, ih, getMargin, List.append_assoc]

/-- `get_margin` gives that many copies of the indent. -/
theorem getMargin_eq_flatten (n : Nat) (indent : Text) :
    getMargin n indent = (List.replicate n indent).flatten := by
  induction n with
  | zero => rfl
  | succ n ih => rw [getMargin, ih, List.replicate_succ', List.flatten_concat]

/-- A margin is empty at level 0 and for the empty indent only. -/
theorem getMargin_eq_nil_iff (n : Nat) (indent : Text) :
    getMargin n indent = [] ↔ n = 0 ∨ indent = [] := by
  rw [getMargin_eq_flatten, List.flatten_eq_nil_iff]
  simp [List.mem_replicate, or_iff_not_imp_left]

/-! ## The lines of a deeper level -/

namespace OutLine

/-- The line, `n` levels deeper. -/
def deepen (n : Nat) (l : OutLine) : OutLine := { l with depth := n + l.depth }

/-- Pushing an output line `n` levels deeper puts the margin of `n` levels in front of it
and changes nothing else. -/
theorem render_deepen (indent : Text) (n : Nat) (l : OutLine) :
    (l.deepen n).render indent = getMargin n indent ++ l.render indent := by
  show getMargin (n + l.depth) indent ++ l.text ++ (if l.colon then [':'] else []) = _
  rw [getMargin_add, render, List.append_assoc, List.append_assoc, List.append_assoc]

/-- Closing the last line with a `':'` does not look at depths. -/
theorem map_deepen_closeLast (n : Nat) (ls : List OutLine) :
    (closeLast ls).map (deepen n) = closeLast (ls.map (deepen n)) := by
  rcases List.eq_nil_or_concat ls with rfl | ⟨ls', l, rfl⟩
  · rfl
  · rw [List.concat_eq_append, closeLast_append, List.map_append, List.map_append]
    exact (closeLast_append (ls'.map (deepen n)) (l.deepen n)).symm

/-- Joining a block to the line before it does not look at depths either. -/
theorem map_deepen_attach (n : Nat) (ls ms : List OutLine) :
    (attach ls ms).map (deepen n) = attach (ls.map (deepen n)) (ms.map (deepen n)) := by
  cases ms with
  | nil => rfl
  | cons m ms => rw [attach, List.map_append, map_deepen_closeLast, List.map_cons, attach]

end OutLine

namespace ExcTree

/-- The heading of the history moves with the level of its exception. -/
theorem historyLabel_add (t : ExcTree) (n k : Nat) :
    t.historyLabel (n + k : Nat) = (t.historyLabel k).map (deepen n) := by
  cases t <;> rfl

/-- The depth at which an exception from elsewhere is printed moves with the level, from
level 1 on. At level 0 it has the depth that it has at level 1, which is why `0 < k` is
needed. -/
theorem foreignDepth_add (n : Nat) {k : Nat} (h : 0 < k) :
    foreignDepth (n + k : Nat) = n + foreignDepth k := by
  rw [foreignDepth_of_pos h, foreignDepth_of_pos (Nat.add_pos_right n h)]

/-- An exception that is not a `lomiri::Exception`, before what is nested in it. -/
theorem attach_foreign_add (n : Nat) {k : Nat} (h : 0 < k) (x : Text) (ms : List OutLine) :
    attach [⟨foreignDepth (n + k : Nat), x, false⟩] (ms.map (deepen n)) =
      (attach [⟨foreignDepth k, x, false⟩] ms).map (deepen n) := by
  rw [map_deepen_attach, foreignDepth_add n h]
  show _ = attach [⟨n + foreignDepth k, x, false⟩] _
  rfl

/-- Rendering `n` levels deeper pushes every line `n` levels deeper. Blocks and histories
call each other, so the two are proved in one induction on the structure. -/
theorem add_both (t : ExcTree) (n : Nat) :
    (∀ k : Nat, t.IsLomiri ∨ 0 < k → t.outBlock (n + k : Nat) = (t.outBlock k).map (deepen n)) ∧
      (∀ k : Nat, t.outHistory (n + k : Nat) = (t.outHistory k).map (deepen n)) := by
  induction t with
  | null => exact ⟨fun _ _ => rfl, fun _ => rfl⟩
  | lomiri name reason nested earlier ihn ihe =>
    constructor
    · intro k _
      have hhistory : earlier.outHistory ((n + k : Nat) + 2) = _ := ihe.2 (k + 2)
      have hnested : nested.outBlock ((n + k : Nat) + 1) = _ := ihn.1 (k + 1) (.inr k.succ_pos)
      rw [outBlock, outBlock, map_deepen_attach, List.map_cons, List.map_append, hhistory, hnested,
        historyLabel_add]
      rfl
    · intro k
      have hnested : nested.outBlock ((n + k : Nat) + 1 + 1) = _ :=
        ihn.1 (k + 1 + 1) (.inr (k + 1).succ_pos)
      rw [outHistory, outHistory, List.map_append, List.map_cons, map_deepen_attach, ihe.2, hnested]
      rfl
  | derived what nested ih =>
    refine ⟨fun k hk => ?_, fun _ => rfl⟩
    have hnested : nested.outBlock ((n + k : Nat) + 1) = _ := ih.1 (k + 1) (.inr k.succ_pos)
    rw [outBlock, outBlock, hnested]
    exact attach_foreign_add n (hk.resolve_left id) _ _
  | bare nested ih =>
    refine ⟨fun k hk => ?_, fun _ => rfl⟩
    have hnested : nested.outBlock ((n + k : Nat) + 1) = _ := ih.1 (k + 1) (.inr k.succ_pos)
    rw [outBlock, outBlock, hnested]
    exact attach_foreign_add n (hk.resolve_left id) _ _
  | std what => exact ⟨fun k hk => attach_foreign_add n (hk.resolve_left id) what [], fun _ => rfl⟩
  | unknown =>
    exact ⟨fun k hk => attach_foreign_add n (hk.resolve_left id) unknown.text [], fun _ => rfl⟩

/-- At a deeper level, the code starts the same lines with a larger margin. -/
theorem outBlock_add {t : ExcTree} (ht : t.IsLomiri) (n k : Nat) :
    t.outBlock (n + k : Nat) = (t.outBlock k).map (deepen n) := (add_both t n).1 k (.inl ht)

/-- The text of a `lomiri::Exception` at level `n` is its text at level 0 with the margin of
`n` levels in front of each line of the output. Lines *inside* a reason are not lines of
the output, which is where the code and its comment part. -/
theorem printLines_outBlock {t : ExcTree} (ht : t.IsLomiri) (n : Nat) (indent : Text) :
    printLines indent (t.outBlock n) =
      joinSep '\n' (((t.outBlock 0).map (render indent)).map (getMargin n indent ++ ·)) := by
  have hlines : (t.outBlock n).map (render indent) =
      ((t.outBlock 0).map (render indent)).map (getMargin n indent ++ ·) := by
    have hadd := outBlock_add ht n 0
    rw [Nat.add_zero] at hadd
    rw [hadd, List.map_map, List.map_map]
    exact List.map_congr_left fun l _ => render_deepen indent n l
  rw [printLines, hlines]

end ExcTree

/-! ## Texts of one line -/

/-- Without newlines in the texts, there are none in the lines. -/
theorem lineProperty_newline : LineProperty ('\n' ∉ ·) :=
  lineProperty_notMem (by decide) (by decide)

namespace ExcTree

/-- What the code starts as a line is one line exactly if every text is. -/
theorem newline_notMem_lines_iff {t : ExcTree} (hl : t.EarlierLomiri) (ht : t.IsLomiri)
    {indent : Text} (hindent : '\n' ∉ indent) :
    (∀ line ∈ (t.outBlock 0).map (render indent), '\n' ∉ line) ↔ ∀ x ∈ t.texts, '\n' ∉ x := by
  rw [List.forall_mem_map]
  constructor
  · intro h x hx hmem
    obtain ⟨y, hy, hmem⟩ := exists_mem_shown hx hmem
    obtain ⟨r, hr, hyr⟩ := (shown_both hl hy).1 0
    rw [← outBlock_forget hl ht 0] at hr
    obtain ⟨l, hl, rfl⟩ := List.mem_map.mp hr
    exact h l hl (List.mem_append_left _ (List.mem_append_right _ (hyr.subset hmem)))
  · intro h l hmem
    exact newline_notMem_render hindent (lineProperty_newline.outBlock h 0 l hmem)

end ExcTree

/-! ## `to_string` indents single lines only -/

/-- `to_string` at level `n` in terms of its text at level `0`. -/
theorem Exception.indentsEveryLine_eq {ρ : Type} {mem : ρ → Thrown ρ} {e : Exception ρ}
    {t : ExcTree} (ht : e.UnfoldsTo mem t) (hl : t.EarlierLomiri) (n : Nat) (indent : Text) :
    e.IndentsEveryLine mem n indent ↔
      printLines indent (t.outBlock n) =
        prefixLines '\n' (getMargin n indent) (printLines indent (t.outBlock 0)) := by
  have hreturns := fun k => toStringAt_returns ht hl k indent
  rw [getMargin_eq_flatten]
  constructor
  · rintro ⟨s₀, sₙ, h₀, hₙ, heq⟩
    cases h₀.eq (hreturns 0)
    cases hₙ.eq (hreturns n)
    exact heq
  · exact fun heq => ⟨_, _, hreturns 0, hreturns n, heq⟩

/-- `to_string` prepends `n` copies of the indent to each of its lines exactly if there
is nothing to prepend or no text of the structure contains a newline. -/
theorem Exception.indentsEveryLine_iff {ρ : Type} {mem : ρ → Thrown ρ} {e : Exception ρ}
    {t : ExcTree} (ht : e.UnfoldsTo mem t) (hl : t.EarlierLomiri) (n : Nat) {indent : Text}
    (hindent : '\n' ∉ indent) :
    e.IndentsEveryLine mem n indent ↔ n = 0 ∨ indent = [] ∨ ∀ x ∈ t.texts, '\n' ∉ x := by
  have hne : (t.outBlock 0).map (render indent) ≠ [] := by
    simpa using ht.outBlock_ne_nil 0
  rw [indentsEveryLine_eq ht hl, ExcTree.printLines_outBlock ht.isLomiri, printLines,
    joinSep_map_eq_prefixLines_iff '\n' _ hne,
    ExcTree.newline_notMem_lines_iff hl ht.isLomiri hindent, getMargin_eq_nil_iff, or_assoc]

theorem Exception.indentsEveryLine_iff_shutdown :
    shutdownReport.IndentsEveryLine shutdownMem 2 defaultIndent :=
  (Exception.indentsEveryLine_iff shutdownReport_unfolds
    (by simp [shutdownTree, ExcTree.EarlierLomiri, ExcTree.IsLomiri]) 2 (by decide)).mpr
    (.inr (.inr (by decide)))

/-- A memory in which every pointer refers to a `std::runtime_error` with two lines. -/
def twoLineMem : Nat → Thrown Nat := fun _ => .std "connect() failed:\nno route to host"

theorem Exception.twoLines_not_indented :
    ¬ ∀ (mem : Nat → Thrown Nat) (e : Exception Nat) (t : ExcTree), e.UnfoldsTo mem t →
      t.EarlierLomiri → ∀ n indent, '\n' ∉ indent → e.IndentsEveryLine mem n indent := by
  intro h
  have hunfolds : (invalidArgumentException (some 0) "Step 1").UnfoldsTo twoLineMem (.lomiri
      "lomiri::InvalidArgumentException" "Step 1" (.std "connect() failed:\nno route to host")
      .null) :=
    ⟨_, _, .std (p := 0) rfl, .null, rfl⟩
  have hindented := h _ _ _ hunfolds ⟨trivial, trivial, trivial⟩ 1 defaultIndent (by decide)
  rw [indentsEveryLine_eq hunfolds ⟨trivial, trivial, trivial⟩] at hindented
  exact absurd hindented (by decide)

end LomiriApi
