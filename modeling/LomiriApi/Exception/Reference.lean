import LomiriApi.Exception.Tree
import Mathlib.Data.List.DropRight
import Mathlib.Data.List.Forall2

/-!
# The reference tree of an exception structure

What the documentation of `to_string` promises, as a list of lines with their
depths: `refBlock` goes through a structure in pre-order and knows nothing of
separators, of `':'` or of the generation count that `follow_history` fills in on
its way back. The printed lines of `Exception.Tree` are these lines
(`outBlock_forget`), and so `to_string` can be read back: split at newlines, take
off the margin and the trailing `':'`.
-/

namespace LomiriApi

open Lib

/-- A line of the reference tree: how deep, and which text. No `':'` is part of it. -/
structure RefLine where
  depth : Nat
  text : Text
deriving DecidableEq, Repr

/-- The characters of a line of the reference tree. -/
def RefLine.render (indent : Text) (r : RefLine) : Text := getMargin r.depth indent ++ r.text

/-- The lines of a history at depth `n`, given the lines of its exceptions from the oldest
to the newest. The numbers count from 1, by position. -/
def numbered (n : Nat) (blocks : List (List RefLine)) : List RefLine :=
  (blocks.zipIdx 1).flatMap fun (b, i) => ⟨n, "Exception #" ++ decimal i⟩ :: b

/-- The history of an exception at depth `n`, if it has one. An empty history has no label
either. -/
def refHistory (n : Nat) : List (List RefLine) → List RefLine
  | [] => []
  | b :: blocks => ⟨n + 1, "Exception history"⟩ :: numbered (n + 2) (b :: blocks)

namespace ExcTree

mutual

/-- The lines of an exception at depth `n`: its own, then its history, then what is
nested in it. -/
def refBlock : ExcTree → Nat → List RefLine
  | null, _ => []
  | lomiri name reason nested earlier, n =>
    ⟨n, nameAndReason name reason⟩ :: (refHistory n (refChain earlier (n + 3)) ++
      refBlock nested (n + 1))
  | derived what nested, n => ⟨n, (derived what nested).text⟩ :: refBlock nested (n + 1)
  | bare nested, n => ⟨n, (bare nested).text⟩ :: refBlock nested (n + 1)
  | std what, n => [⟨n, what⟩]
  | unknown, n => [⟨n, unknown.text⟩]

/-- The exceptions of a history chain, from the oldest to the newest: for each its own text
at depth `n` and what is nested in it. The links lead the other way, from the newest to the
oldest. -/
def refChain : ExcTree → Nat → List (List RefLine)
  | lomiri name reason nested earlier, n =>
    refChain earlier n ++ [⟨n, nameAndReason name reason⟩ :: refBlock nested (n + 1)]
  | _, _ => []

end

/-- The `name`, `reason` and `what()` texts of a structure, which are all that a program
chooses about the output. -/
def texts : ExcTree → List Text
  | null => []
  | lomiri name reason nested earlier => name :: reason :: (nested.texts ++ earlier.texts)
  | derived what nested => what :: nested.texts
  | bare nested => nested.texts
  | std what => [what]
  | unknown => []

end ExcTree

/-! ## The printed lines are those of the reference tree -/

/-- The line, whether a `':'` closes it or not. -/
def OutLine.forget (l : OutLine) : RefLine := ⟨l.depth, l.text⟩

open OutLine

theorem forget_closeLast (ls : List OutLine) :
    (closeLast ls).map forget = ls.map forget := by
  rcases List.eq_nil_or_concat ls with rfl | ⟨ls', l, rfl⟩
  · rfl
  · simp [List.concat_eq_append, closeLast_append, forget]

theorem attach_ne_nil {ls : List OutLine} (h : ls ≠ []) (ms : List OutLine) :
    attach ls ms ≠ [] := by
  cases ms with
  | nil => exact h
  | cons m ms => exact List.append_ne_nil_of_right_ne_nil _ (List.cons_ne_nil m ms)

theorem forget_attach (ls ms : List OutLine) :
    (attach ls ms).map forget = ls.map forget ++ ms.map forget := by
  cases ms with
  | nil => simp [attach]
  | cons m ms => rw [attach, List.map_append, forget_closeLast]

/-- A newer exception gets the next number. -/
theorem numbered_append (n : Nat) (blocks : List (List RefLine)) (b : List RefLine) :
    numbered n (blocks ++ [b]) =
      numbered n blocks ++ ⟨n, "Exception #" ++ decimal (blocks.length + 1)⟩ :: b := by
  simp [numbered, List.zipIdx_append, Nat.add_comm]

namespace ExcTree

theorem refChain_length (t : ExcTree) (n : Nat) : (t.refChain n).length = t.chainLength := by
  induction t with
  | lomiri name reason nested earlier _ ihe => simp [refChain, chainLength, ihe]
  | null | derived _ _ _ | bare _ _ | std _ | unknown => rfl

/-- The chain of a `lomiri::Exception` has entries. -/
theorem refHistory_lomiri (n m : Nat) (name reason : Text) (nested earlier : ExcTree) :
    refHistory n ((lomiri name reason nested earlier).refChain m) =
      ⟨n + 1, "Exception history"⟩ ::
        numbered (n + 2) ((lomiri name reason nested earlier).refChain m) := by
  cases h : (lomiri name reason nested earlier).refChain m with
  | nil =>
    have hlen := refChain_length (lomiri name reason nested earlier) m
    rw [h] at hlen
    cases hlen
  | cons b bs => rfl

/-- The label and the entries of a history. -/
theorem forget_history {earlier : ExcTree} (hchain : earlier.IsLomiri)
    (h : ∀ n : Nat, (earlier.outHistory n).map forget = numbered n (earlier.refChain (n + 1)))
    (n : Nat) :
    (earlier.historyLabel n ++ earlier.outHistory (n + 2)).map forget =
      refHistory n (earlier.refChain (n + 3)) := by
  have hhistory : (earlier.outHistory (n + 2)).map forget = _ := h (n + 2)
  cases earlier with
  | null => rfl
  | lomiri name reason nested earlier =>
    rw [refHistory_lomiri, ← hhistory, List.map_append]
    show RefLine.mk (n + 1) "Exception history" :: _ = _
    rfl
  | derived _ _ | bare _ | std _ | unknown => exact hchain.elim

/-- An exception that is not a `lomiri::Exception`, before what is nested in it. -/
theorem forget_foreign {n : Nat} (h : 0 < n) (x : Text) (ms : List OutLine) :
    (attach [⟨foreignDepth n, x, false⟩] ms).map forget = ⟨n, x⟩ :: ms.map forget := by
  rw [forget_attach, foreignDepth_of_pos h]
  show [RefLine.mk n x] ++ ms.map forget = _
  rfl

/-- From level `1` on (`0` for a `lomiri::Exception`), the depths are those of the
reference tree. -/
theorem forget_both {t : ExcTree} (hl : t.EarlierLomiri) :
    (∀ n : Nat, t.IsLomiri ∨ 0 < n → (t.outBlock n).map forget = t.refBlock n) ∧
      (∀ n : Nat, (t.outHistory n).map forget = numbered n (t.refChain (n + 1))) := by
  induction t with
  | null => exact ⟨fun _ _ => rfl, fun _ => rfl⟩
  | lomiri name reason nested earlier ihn ihe =>
    obtain ⟨hchain, hn, he⟩ := hl
    constructor
    · intro n _
      have hnested : (nested.outBlock (n + 1)).map forget = _ :=
        (ihn hn).1 (n + 1) (.inr n.succ_pos)
      rw [outBlock, refBlock, forget_attach, hnested, List.map_cons,
        forget_history hchain (ihe he).2]
      rfl
    · intro n
      have hnested : (nested.outBlock (n + 1 + 1)).map forget = _ :=
        (ihn hn).1 (n + 1 + 1) (.inr (n + 1).succ_pos)
      rw [outHistory, refChain, numbered_append, refChain_length, List.map_append, (ihe he).2,
        List.map_cons, forget_attach, hnested]
      rfl
  | derived what nested ih =>
    refine ⟨fun n hn => ?_, fun _ => rfl⟩
    have hnested : (nested.outBlock (n + 1)).map forget = _ := (ih hl).1 (n + 1) (.inr n.succ_pos)
    rw [outBlock, refBlock, forget_foreign (hn.resolve_left id), hnested]
  | bare nested ih =>
    refine ⟨fun n hn => ?_, fun _ => rfl⟩
    have hnested : (nested.outBlock (n + 1)).map forget = _ := (ih hl).1 (n + 1) (.inr n.succ_pos)
    rw [outBlock, refBlock, forget_foreign (hn.resolve_left id), hnested]
  | std what => exact ⟨fun n hn => forget_foreign (hn.resolve_left id) what [], fun _ => rfl⟩
  | unknown =>
    exact ⟨fun n hn => forget_foreign (hn.resolve_left id) unknown.text [], fun _ => rfl⟩

/-- The lines that are printed are those of the reference tree. -/
theorem outBlock_forget {t : ExcTree} (hl : t.EarlierLomiri) (ht : t.IsLomiri) (n : Nat) :
    (t.outBlock n).map forget = t.refBlock n := (forget_both hl).1 n (.inl ht)

end ExcTree

/-- Some line is printed. -/
theorem Exception.UnfoldsTo.outBlock_ne_nil {ρ : Type} {mem : ρ → Thrown ρ} {e : Exception ρ}
    {t : ExcTree} (ht : e.UnfoldsTo mem t) (n : Int) : t.outBlock n ≠ [] := by
  obtain ⟨tn, te, -, -, rfl⟩ := ht
  exact attach_ne_nil (List.cons_ne_nil _ _) _

/-! ## Texts that fit on a line -/

/-- The text has no newline and does not end in `':'`. Other texts cannot be told from what
the code adds. -/
def Plain (s : Text) : Prop := '\n' ∉ s ∧ s.getLast? ≠ some ':'

instance (s : Text) : Decidable (Plain s) := inferInstanceAs (Decidable (_ ∧ _))

theorem Plain.append {s t : Text} (hs : '\n' ∉ s) (ht : Plain t) (hne : t ≠ []) :
    Plain (s ++ t) := by
  refine ⟨fun h => (List.mem_append.mp h).elim hs ht.1, ?_⟩
  rw [List.getLast?_append_of_ne_nil s hne]
  exact ht.2

theorem plain_nameAndReason {name reason : Text} (hn : Plain name) (hr : Plain reason) :
    Plain (nameAndReason name reason) := by
  by_cases h : reason = []
  · simpa [nameAndReason, h] using hn
  · rw [nameAndReason, if_pos h, ← List.append_assoc]
    refine hr.append (fun hmem => ?_) h
    rcases List.mem_append.mp hmem with hmem | hmem
    · exact hn.1 hmem
    · exact absurd hmem (by decide)

theorem plain_decimal (n : Nat) : Plain (decimal n) := by
  have hdigit : ∀ c ∈ decimal n, c.isDigit := fun c hc =>
    Nat.isDigit_of_mem_toDigits (by decide) (by decide) hc
  refine ⟨fun h => absurd (hdigit _ h) (by decide), fun h => ?_⟩
  exact absurd (hdigit _ (List.mem_of_getLast? h)) (by decide)

theorem plain_exceptionNumber (n : Nat) : Plain ("Exception #" ++ decimal n) :=
  (plain_decimal n).append (by decide) Nat.toDigits_ne_nil

theorem plain_derived {what : Text} (h : Plain what) : Plain (what ++ derivedNote) :=
  Plain.append h.1 (by decide) (by decide)

/-- What holds of the lines of a structure as soon as it holds of its texts. Proved once by
induction, it serves newlines, NULs and trailing `':'`s alike. -/
structure LineProperty (P : Text → Prop) : Prop where
  label : P "Exception history"
  number : ∀ i, P ("Exception #" ++ decimal i)
  own : ∀ {name reason}, P name → P reason → P (nameAndReason name reason)
  derived : ∀ {what}, P what → P (what ++ derivedNote)
  bare : P bareText
  unknown : P unknownText

/-- Fitting on a line is such a property. -/
theorem lineProperty_plain : LineProperty Plain where
  label := by decide
  number := plain_exceptionNumber
  own := plain_nameAndReason
  derived := plain_derived
  bare := by decide
  unknown := by decide

namespace LineProperty

variable {P : Text → Prop}

theorem attached {ls ms : List OutLine} (hls : ∀ l ∈ ls, P l.text) (hms : ∀ l ∈ ms, P l.text) :
    ∀ l ∈ attach ls ms, P l.text := by
  intro l hl
  have hmem := List.mem_map_of_mem (f := RefLine.text ∘ forget) hl
  rw [← List.map_map, forget_attach, List.map_append, List.map_map, List.map_map] at hmem
  rcases List.mem_append.mp hmem with hmem | hmem
  · exact List.forall_mem_map.mpr hls _ hmem
  · exact List.forall_mem_map.mpr hms _ hmem

theorem both (hP : LineProperty P) {t : ExcTree} (h : ∀ x ∈ t.texts, P x) :
    (∀ n, ∀ l ∈ t.outBlock n, P l.text) ∧ (∀ n, ∀ l ∈ t.outHistory n, P l.text) := by
  have hnone : ∀ l ∈ ([] : List OutLine), P l.text := fun l hl => (List.not_mem_nil hl).elim
  have hsingle : ∀ {d x b}, P x → ∀ l ∈ [OutLine.mk d x b], P l.text :=
    fun hx => List.forall_mem_singleton.mpr hx
  induction t with
  | null => exact ⟨fun _ => hnone, fun _ => hnone⟩
  | lomiri name reason nested earlier ihn ihe =>
    rw [ExcTree.texts, List.forall_mem_cons, List.forall_mem_cons, List.forall_mem_append] at h
    obtain ⟨hname, hreason, hn, he⟩ := h
    have hown := hP.own hname hreason
    have hlabel : ∀ n, ∀ l ∈ earlier.historyLabel n, P l.text := by
      intro n
      cases earlier with
      | null => exact hnone
      | lomiri _ _ _ _ | derived _ _ | bare _ | std _ | unknown => exact hsingle hP.label
    constructor
    · intro n
      refine attached (List.forall_mem_cons.mpr ⟨hown, ?_⟩) ((ihn hn).1 _)
      exact List.forall_mem_append.mpr ⟨hlabel n, (ihe he).2 _⟩
    · intro n
      refine List.forall_mem_append.mpr ⟨(ihe he).2 n, ?_⟩
      exact List.forall_mem_cons.mpr ⟨hP.number _, attached (hsingle hown) ((ihn hn).1 _)⟩
  | derived what nested ih =>
    rw [ExcTree.texts, List.forall_mem_cons] at h
    exact ⟨fun n => attached (hsingle (hP.derived h.1)) ((ih h.2).1 _), fun _ => hnone⟩
  | bare nested ih =>
    exact ⟨fun n => attached (hsingle hP.bare) ((ih h).1 _), fun _ => hnone⟩
  | std what => exact ⟨fun n => hsingle (h what (List.mem_singleton_self what)), fun _ => hnone⟩
  | unknown => exact ⟨fun n => hsingle hP.unknown, fun _ => hnone⟩

/-- A property of the texts of a structure is one of the lines that are printed. -/
theorem outBlock (hP : LineProperty P) {t : ExcTree} (h : ∀ x ∈ t.texts, P x) (n : Int) :
    ∀ l ∈ t.outBlock n, P l.text := (hP.both h).1 n

end LineProperty

/-! ## Reading the text back -/

/-- The line without trailing `':'`. -/
def dropColons (s : Text) : Text := s.rdropWhile (· == ':')

theorem dropColons_plain {s : Text} (h : s.getLast? ≠ some ':') : dropColons s = s := by
  refine List.rdropWhile_eq_self_iff.mpr fun hne hlast => h ?_
  rw [List.getLast?_eq_some_getLast hne, beq_iff_eq.mp hlast]

theorem dropColons_colon {s : Text} (h : s.getLast? ≠ some ':') : dropColons (s ++ [':']) = s := by
  rw [dropColons, List.rdropWhile_concat_pos _ _ _ (by decide)]
  exact dropColons_plain h

/-- Whether a `':'` closes a line or not, dropping it leaves the same text. -/
theorem dropColons_render (s : Text) (b : Bool) (h : s.getLast? ≠ some ':') :
    dropColons (s ++ if b then [':'] else []) = s := by
  cases b with
  | false => simpa using dropColons_plain h
  | true => exact dropColons_colon h

theorem newline_notMem_getMargin {n : Nat} {indent : Text} (h : '\n' ∉ indent) :
    '\n' ∉ getMargin n indent := by
  induction n with
  | zero => simp [getMargin]
  | succ n ih => simpa [getMargin, h] using ih

/-- A line stays one line. -/
theorem newline_notMem_render {indent : Text} (hindent : '\n' ∉ indent) {l : OutLine}
    (hl : '\n' ∉ l.text) : '\n' ∉ l.render indent := by
  rw [OutLine.render, List.append_assoc]
  simp only [List.mem_append, not_or]
  refine ⟨newline_notMem_getMargin hindent, hl, ?_⟩
  cases l.colon <;> decide

theorem getLast?_getMargin_iff (n : Nat) (indent : Text) (c : Char) :
    (getMargin n indent).getLast? = some c ↔ 0 < n ∧ indent.getLast? = some c := by
  induction n with
  | zero => simp [getMargin]
  | succ n ih =>
    by_cases hnil : indent = []
    · subst hnil
      rw [getMargin, List.append_nil, ih]
      simp
    · rw [getMargin, List.getLast?_append_of_ne_nil _ hnil]
      simp

theorem getLast?_getMargin {n : Nat} {indent : Text} (h : indent.getLast? ≠ some ':') :
    (getMargin n indent).getLast? ≠ some ':' :=
  fun hlast => h ((getLast?_getMargin_iff n indent ':').mp hlast).2

/-- The line `line` shows the text of `r` at the depth of `r`. The margin is taken off
first, in case the indent ends in `':'` and the text is empty. -/
def RefLine.ReadFrom (indent line : Text) (r : RefLine) : Prop :=
  ∃ x, line = getMargin r.depth indent ++ x ∧ dropColons x = r.text

theorem readFrom_render {indent : Text} {l : OutLine} (hl : Plain l.text) :
    l.forget.ReadFrom indent (l.render indent) :=
  ⟨_, List.append_assoc .., dropColons_render l.text l.colon hl.2⟩

/-- With an indent that does not end in `':'`, dropping the `':'` of a whole line
does as well. -/
theorem dropColons_line {indent : Text} (hindent : indent.getLast? ≠ some ':') {l : OutLine}
    (hl : Plain l.text) : dropColons (l.render indent) = l.forget.render indent := by
  refine dropColons_render (getMargin l.depth indent ++ l.text) l.colon ?_
  by_cases hnil : l.text = []
  · simpa [hnil] using getLast?_getMargin hindent
  · rw [List.getLast?_append_of_ne_nil _ hnil]
    exact hl.2

/-- Splitting the printed lines gives them back. -/
theorem splitOn_printLines {indent : Text} (hindent : '\n' ∉ indent) {ls : List OutLine}
    (hls : ∀ l ∈ ls, Plain l.text) (hne : ls ≠ []) :
    (printLines indent ls).splitOn '\n' = ls.map (render indent) := by
  refine splitOn_joinSep (fun line hline => ?_) (by simpa using hne)
  obtain ⟨l, hl, rfl⟩ := List.mem_map.mp hline
  exact newline_notMem_render hindent (hls l hl).1

/-- **`to_string` renders the whole structure.** On an object whose links unfold to
a finite structure `t`, with only `lomiri::Exception`s in the histories and texts
that fit on a line, `to_string` returns (for every amount of fuel from `2 * t.size`
on) a text which, split at newlines, shows the lines of the reference tree one by
one, each at its depth. -/
theorem Exception.toString_shows_reference {ρ : Type} {mem : ρ → Thrown ρ} {e : Exception ρ}
    {t : ExcTree} (ht : e.UnfoldsTo mem t) (hl : t.EarlierLomiri)
    (hplain : ∀ x ∈ t.texts, Plain x) (n : Nat) {indent : Text} (hindent : '\n' ∉ indent) :
    ∃ s, (∀ fuel, 2 * t.size ≤ fuel → toStringAt mem fuel e n indent = .done s) ∧
      List.Forall₂ (fun line r => RefLine.ReadFrom indent line r) (s.splitOn '\n') (t.refBlock n) ∧
      (indent.getLast? ≠ some ':' →
        (s.splitOn '\n').map dropColons = (t.refBlock n).map (RefLine.render indent)) := by
  have href := ExcTree.outBlock_forget hl ht.isLomiri n
  have hls : ∀ l ∈ t.outBlock n, Plain l.text := lineProperty_plain.outBlock hplain n
  have hsplit := splitOn_printLines hindent hls (ht.outBlock_ne_nil n)
  refine ⟨printLines indent (t.outBlock n), fun fuel => toStringAt_eq ht hl n indent, ?_, ?_⟩
  · rw [hsplit, ← href, List.forall₂_map_left_iff, List.forall₂_map_right_iff,
      List.forall₂_same]
    exact fun l hmem => readFrom_render (hls l hmem)
  · intro hcolon
    rw [hsplit, ← href, List.map_map, List.map_map]
    exact List.map_congr_left fun l hmem => dropColons_line hcolon (hls l hmem)

/-- Two remembered exceptions, the newer one thrown while another was handled. -/
def shutdownMem : Nat → Thrown Nat
  | 0 => .nested (.lomiri (invalidArgumentException none "Step 1"))
  | 1 => .nested (.lomiri { invalidArgumentException (some 2) "Step 2" with earlier_ := some 0 })
  | 2 => .nested (.derived "E" (some 3))
  | _ => .std "std::bad_alloc"

/-- The exception that reports them. -/
def shutdownReport : Exception Nat :=
  { shutdownException none "Finalization problem" with earlier_ := some 1 }

/-- Its structure. -/
def shutdownTree : ExcTree :=
  .lomiri "lomiri::ShutdownException" "Finalization problem" .null
    (.lomiri "lomiri::InvalidArgumentException" "Step 2" (.derived "E" (.std "std::bad_alloc"))
      (.lomiri "lomiri::InvalidArgumentException" "Step 1" .null .null))

theorem shutdownReport_unfolds : shutdownReport.UnfoldsTo shutdownMem shutdownTree := by
  refine ⟨_, _, .null, .lomiri (p := 1) rfl (.derived (p := 2) rfl (.std (p := 3) rfl))
    (.lomiri (p := 0) rfl .null .null), rfl⟩

theorem Exception.toString_shows_reference_shutdown :
    ∃ s, (∀ fuel, 2 * shutdownTree.size ≤ fuel →
        toStringAt shutdownMem fuel shutdownReport 0 defaultIndent = .done s) ∧
      (s.splitOn '\n').map dropColons =
        (["lomiri::ShutdownException: Finalization problem",
          "    Exception history",
          "        Exception #1",
          "            lomiri::InvalidArgumentException: Step 1",
          "        Exception #2",
          "            lomiri::InvalidArgumentException: Step 2",
          "                E (derived from std::exception and std::nested_exception)",
          "                    std::bad_alloc"] : List String).map String.toList := by
  obtain ⟨s, hs, -, hlines⟩ := Exception.toString_shows_reference shutdownReport_unfolds
    (by simp [shutdownTree, ExcTree.EarlierLomiri, ExcTree.IsLomiri]) (by decide) 0
    (show '\n' ∉ defaultIndent by decide)
  refine ⟨s, hs, (hlines (by decide)).trans ?_⟩
  decide

end LomiriApi
