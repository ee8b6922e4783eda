import LomiriApi.Exception.Indent
import LomiriApi.Lib.Outline

/-!
# What the text of `to_string` tells

`to_string` is for a reader who has nothing but the text. Does it tell one structure of
exceptions from another?

- `ExcTree.seen`: what can be seen of a structure: the text of each exception, what is
  nested in it, and its history; not of which class an exception is that is not a
  `lomiri::Exception`.
- `ExcTree.outline`: the structure as an outline, whose lines are those of the reference
  tree (`refBlock_eq_lines`).
- `outline_inj`: the outline determines what can be seen, if no exception has the text
  `"Exception history"`.
- `Exception.toString_faithful`: so do the text of `to_string`, and the level with it.
-/

namespace LomiriApi

open Lib OutLine

namespace ExcTree

/-- What can be seen of a structure, with each exception as a `lomiri::Exception` without a
reason. `"a: b"` may be a name with a reason, or one text. -/
def seen : ExcTree → ExcTree
  | null => null
  | lomiri name reason nested earlier =>
    lomiri (nameAndReason name reason) [] nested.seen earlier.seen
  | derived what nested => lomiri (derived what nested).text [] nested.seen null
  | bare nested => lomiri (bare nested).text [] nested.seen null
  | std what => lomiri what [] null null
  | unknown => lomiri unknown.text [] null null

/-- The texts of the exceptions of a structure, as they are printed. -/
def ownTexts : ExcTree → List Text
  | null => []
  | lomiri name reason nested earlier =>
    nameAndReason name reason :: (nested.ownTexts ++ earlier.ownTexts)
  | derived what nested => (derived what nested).text :: nested.ownTexts
  | bare nested => (bare nested).text :: nested.ownTexts
  | std what => [what]
  | unknown => [unknown.text]

end ExcTree

/-! ## A structure as an outline -/

/-- The entries of a history, numbered from `i` on. -/
def numberedOutline : Nat → List (Outline Text) → Outline Text
  | _, [] => .nil
  | i, entry :: entries =>
    .cons ("Exception #" ++ decimal i) entry (numberedOutline (i + 1) entries)

/-- A history, if there is one, and the rest. Both are below the exception, and only the
label tells them apart. -/
def historyOutline (entries : List (Outline Text)) (rest : Outline Text) : Outline Text :=
  if entries = [] then rest else .cons "Exception history" (numberedOutline 1 entries) rest

namespace ExcTree

mutual

/-- An exception with its history and what is nested in it below. -/
def outline : ExcTree → Outline Text
  | null => .nil
  | lomiri name reason nested earlier =>
    .cons (nameAndReason name reason) (historyOutline (chainOutline earlier) (outline nested)) .nil
  | derived what nested => .cons (derived what nested).text (outline nested) .nil
  | bare nested => .cons (bare nested).text (outline nested) .nil
  | std what => .cons what .nil .nil
  | unknown => .cons unknown.text .nil .nil

/-- The exceptions of a history chain, from the oldest to the newest. -/
def chainOutline : ExcTree → List (Outline Text)
  | lomiri name reason nested earlier =>
    chainOutline earlier ++ [.cons (nameAndReason name reason) (outline nested) .nil]
  | _ => []

end

end ExcTree

/-- A line of an outline. -/
def RefLine.ofLine (l : Nat × Text) : RefLine := ⟨l.1, l.2⟩

theorem lines_numberedOutline (i d : Nat) (entries : List (Outline Text)) :
    ((numberedOutline i entries).lines d).map RefLine.ofLine =
      ((entries.map fun o => (o.lines (d + 1)).map RefLine.ofLine).zipIdx i).flatMap
        fun (b, i) => ⟨d, "Exception #" ++ decimal i⟩ :: b := by
  induction entries generalizing i with
  | nil => rfl
  | cons entry entries ih =>
    rw [numberedOutline, Outline.lines, List.map_cons, List.map_append, ih, List.map_cons,
      List.zipIdx_cons, List.flatMap_cons]
    rfl

namespace ExcTree

/-- The lines of a history, given those of its exceptions. -/
theorem lines_historyOutline (entries : List (Outline Text)) (rest : Outline Text) (n : Nat) :
    ((historyOutline entries rest).lines (n + 1)).map RefLine.ofLine =
      refHistory n (entries.map fun o => (o.lines (n + 3)).map RefLine.ofLine) ++
        (rest.lines (n + 1)).map RefLine.ofLine := by
  cases entries with
  | nil => rfl
  | cons entry entries =>
    rw [historyOutline, if_neg (List.cons_ne_nil _ _), Outline.lines, List.map_cons,
      List.map_append, lines_numberedOutline]
    rfl

theorem refLines_eq (t : ExcTree) :
    (∀ n, t.refBlock n = (t.outline.lines n).map RefLine.ofLine) ∧
      ∀ n, t.refChain n = t.chainOutline.map fun o => (o.lines n).map RefLine.ofLine := by
  induction t with
  | null => exact ⟨fun _ => rfl, fun _ => rfl⟩
  | lomiri name reason nested earlier ihn ihe =>
    constructor
    · intro n
      rw [refBlock, outline, Outline.lines, List.map_cons, Outline.lines, List.append_nil,
        lines_historyOutline, ← ihe.2, ← ihn.1]
      rfl
    · intro n
      rw [refChain, chainOutline, List.map_append, ihe.2, List.map_singleton, Outline.lines,
        List.map_cons, Outline.lines, List.append_nil, ← ihn.1]
      rfl
  | derived what nested ih | bare nested ih =>
    refine ⟨fun n => ?_, fun _ => rfl⟩
    rw [refBlock, outline, Outline.lines, List.map_cons, Outline.lines, List.append_nil, ← ih.1]
    rfl
  | std what | unknown => exact ⟨fun _ => rfl, fun _ => rfl⟩

/-- The lines of the reference tree are those of the outline. -/
theorem refBlock_eq_lines (t : ExcTree) (n : Nat) :
    t.refBlock n = (t.outline.lines n).map RefLine.ofLine := t.refLines_eq.1 n

end ExcTree

/-! ## The outline determines what can be seen -/

theorem numberedOutline_inj {i : Nat} {entries entries' : List (Outline Text)}
    (h : numberedOutline i entries = numberedOutline i entries') : entries = entries' := by
  induction entries generalizing entries' i with
  | nil =>
    cases entries' with
    | nil => rfl
    | cons entry' entries' => cases h
  | cons entry entries ih =>
    cases entries' with
    | nil => cases h
    | cons entry' entries' =>
      obtain ⟨-, rfl, hnext⟩ := Outline.cons.inj h
      rw [ih hnext]

/-- The label tells a history from what is nested. -/
theorem historyOutline_inj {entries entries' : List (Outline Text)} {rest rest' : Outline Text}
    (hrest : rest.heading? ≠ some "Exception history")
    (hrest' : rest'.heading? ≠ some "Exception history")
    (h : historyOutline entries rest = historyOutline entries' rest') :
    entries = entries' ∧ rest = rest' := by
  unfold historyOutline at h
  by_cases hnil : entries = []
  · by_cases hnil' : entries' = []
    · rw [if_pos hnil, if_pos hnil'] at h
      exact ⟨hnil.trans hnil'.symm, h⟩
    · rw [if_pos hnil, if_neg hnil'] at h
      exact absurd (congrArg Outline.heading? h) hrest
  · by_cases hnil' : entries' = []
    · rw [if_neg hnil, if_pos hnil'] at h
      exact absurd (congrArg Outline.heading? h).symm hrest'
    · rw [if_neg hnil, if_neg hnil'] at h
      obtain ⟨-, hentries, hrests⟩ := Outline.cons.inj h
      exact ⟨numberedOutline_inj hentries, hrests⟩

namespace ExcTree

/-- The structures that `seen` leaves: nothing but `lomiri::Exception`s without a reason.
Two of them are equal if they look the same. -/
def Reduced : ExcTree → Prop
  | null => True
  | lomiri _ reason nested earlier => reason = [] ∧ nested.Reduced ∧ earlier.Reduced
  | _ => False

theorem reduced_seen (t : ExcTree) : t.seen.Reduced := by
  induction t with
  | null => trivial
  | lomiri name reason nested earlier ihn ihe => exact ⟨rfl, ihn, ihe⟩
  | derived what nested ih | bare nested ih => exact ⟨rfl, ih, trivial⟩
  | std what | unknown => exact ⟨rfl, trivial, trivial⟩

theorem nameAndReason_nil (x : Text) : nameAndReason x [] = x := by simp [nameAndReason]

/-- What is seen prints the same outline. -/
theorem outline_seen {t : ExcTree} (hl : t.EarlierLomiri) :
    t.seen.outline = t.outline ∧ (t.IsLomiri → t.seen.chainOutline = t.chainOutline) := by
  induction t with
  | null => exact ⟨rfl, fun _ => rfl⟩
  | lomiri name reason nested earlier ihn ihe =>
    obtain ⟨hchain, hn, he⟩ := hl
    constructor
    · rw [seen, outline, outline, nameAndReason_nil, (ihn hn).1, (ihe he).2 hchain]
    · intro _
      rw [seen, chainOutline, chainOutline, nameAndReason_nil, (ihn hn).1, (ihe he).2 hchain]
  | derived what nested ih | bare nested ih =>
    refine ⟨?_, False.elim⟩
    rw [seen, outline, outline, nameAndReason_nil, (ih hl).1]
    rfl
  | std what | unknown =>
    refine ⟨?_, False.elim⟩
    rw [seen, outline, nameAndReason_nil]
    rfl

theorem ownTexts_seen (t : ExcTree) : t.seen.ownTexts = t.ownTexts := by
  induction t with
  | null => rfl
  | lomiri name reason nested earlier ihn ihe =>
    rw [seen, ownTexts, ownTexts, nameAndReason_nil, ihn, ihe]
  | derived what nested ih | bare nested ih =>
    rw [seen, ownTexts, ownTexts, nameAndReason_nil, ih]
    exact congrArg (_ :: ·) (List.append_nil _)
  | std what | unknown =>
    rw [seen, ownTexts, nameAndReason_nil]
    rfl

theorem heading?_outline {t : ExcTree} {x : Text} (h : t.outline.heading? = some x) :
    x ∈ t.ownTexts := by
  cases t with
  | null => cases h
  | lomiri name reason nested earlier | derived what nested | bare nested =>
    exact List.mem_cons.mpr (.inl (Option.some.inj h).symm)
  | std what | unknown => exact List.mem_singleton.mpr (Option.some.inj h).symm

/-- **The outline determines the structure**, if no exception has the text of the label.
Such an exception could pass for the history of the one above it. -/
theorem outline_inj {t t' : ExcTree} (ht : t.Reduced) (ht' : t'.Reduced)
    (hx : ("Exception history" : Text) ∉ t.ownTexts)
    (hx' : ("Exception history" : Text) ∉ t'.ownTexts) :
    (t.outline = t'.outline → t = t') ∧ (t.chainOutline = t'.chainOutline → t = t') := by
  induction t generalizing t' with
  | null =>
    cases t' with
    | null => exact ⟨fun _ => rfl, fun _ => rfl⟩
    | lomiri name' reason' nested' earlier' =>
      refine ⟨fun h => ?_, fun h => ?_⟩
      · rw [outline, outline] at h
        cases h
      · rw [chainOutline.eq_1] at h
        exact absurd h.symm (List.append_ne_nil_of_right_ne_nil _ (List.cons_ne_nil _ _))
    | _ => exact ht'.elim
  | lomiri name reason nested earlier ihn ihe =>
    obtain ⟨rfl, hn, he⟩ := ht
    rw [ownTexts, List.mem_cons, List.mem_append, not_or, not_or] at hx
    cases t' with
    | null =>
      refine ⟨fun h => ?_, fun h => ?_⟩
      · rw [outline, outline] at h
        cases h
      · rw [chainOutline.eq_1] at h
        exact absurd h (List.append_ne_nil_of_right_ne_nil _ (List.cons_ne_nil _ _))
    | lomiri name' reason' nested' earlier' =>
      obtain ⟨rfl, hn', he'⟩ := ht'
      rw [ownTexts, List.mem_cons, List.mem_append, not_or, not_or] at hx'
      have ihn := (ihn hn hn' hx.2.1 hx'.2.1).1
      have ihe := (ihe he he' hx.2.2 hx'.2.2).2
      constructor
      · intro h
        rw [outline, outline, nameAndReason_nil, nameAndReason_nil] at h
        obtain ⟨rfl, hbelow, -⟩ := Outline.cons.inj h
        obtain ⟨hchain, hnested⟩ := historyOutline_inj
          (fun hhead => hx.2.1 (heading?_outline hhead))
          (fun hhead => hx'.2.1 (heading?_outline hhead)) hbelow
        rw [ihn hnested, ihe hchain]
      · intro h
        rw [chainOutline, chainOutline, nameAndReason_nil, nameAndReason_nil] at h
        obtain ⟨hchain, hlast⟩ := List.append_inj' h rfl
        obtain ⟨rfl, hnested, -⟩ := Outline.cons.inj (List.cons.inj hlast).1
        rw [ihn hnested, ihe hchain]
    | _ => exact ht'.elim
  | _ => exact ht.elim

/-! ## What can be seen is what is printed -/

theorem chainLength_seen {t : ExcTree} (hl : t.EarlierLomiri) (ht : t.IsLomiri) :
    t.seen.chainLength = t.chainLength := by
  induction t with
  | null => rfl
  | lomiri name reason nested earlier ihn ihe =>
    rw [seen, chainLength, chainLength, ihe hl.2.2 hl.1]
  | derived what nested ih | bare nested ih => exact ht.elim
  | std what | unknown => exact ht.elim

theorem historyLabel_seen (t : ExcTree) (n : Int) : t.seen.historyLabel n = t.historyLabel n := by
  cases t <;> rfl

/-- Printing what is seen prints the structure, `':'` and all. -/
theorem printed_seen {t : ExcTree} (hl : t.EarlierLomiri) :
    (∀ n : Nat, t.IsLomiri ∨ 0 < n → t.seen.outBlock n = t.outBlock n) ∧
      (t.IsLomiri → ∀ n : Nat, t.seen.outHistory n = t.outHistory n) := by
  induction t with
  | null => exact ⟨fun _ _ => rfl, fun _ _ => rfl⟩
  | lomiri name reason nested earlier ihn ihe =>
    obtain ⟨hchain, hn, he⟩ := hl
    have hnested : ∀ n : Nat, nested.seen.outBlock ((n : Int) + 1) = nested.outBlock (n + 1) :=
      fun n => (ihn hn).1 (n + 1) (.inr n.succ_pos)
    constructor
    · intro n _
      have hearlier : earlier.seen.outHistory ((n : Int) + 2) = earlier.outHistory (n + 2) :=
        (ihe he).2 hchain (n + 2)
      rw [seen, outBlock, outBlock, nameAndReason_nil, hnested, hearlier, historyLabel_seen]
    · intro _ n
      have hdeeper : nested.seen.outBlock ((n : Int) + 1 + 1) = nested.outBlock (n + 1 + 1) :=
        hnested (n + 1)
      rw [seen, outHistory, outHistory, nameAndReason_nil, (ihe he).2 hchain, hdeeper,
        chainLength_seen he hchain]
  | derived what nested ih | bare nested ih =>
    refine ⟨fun n hn => ?_, False.elim⟩
    have hnested : nested.seen.outBlock ((n : Int) + 1) = nested.outBlock (n + 1) :=
      (ih hl).1 (n + 1) (.inr n.succ_pos)
    rw [seen, outBlock, outBlock, nameAndReason_nil, hnested,
      foreignDepth_of_pos (hn.resolve_left id)]
    rfl
  | std what | unknown =>
    refine ⟨fun n hn => ?_, False.elim⟩
    rw [seen, outBlock, nameAndReason_nil]
    show _ = [OutLine.mk (foreignDepth n) _ false]
    rw [foreignDepth_of_pos (hn.resolve_left id)]
    rfl

theorem outBlock_seen {t : ExcTree} (hl : t.EarlierLomiri) (ht : t.IsLomiri) (n : Nat) :
    t.seen.outBlock n = t.outBlock n := (printed_seen hl).1 n (.inl ht)

/-! ## Legible texts -/

theorem mem_refHistory {n : Nat} {blocks : List (List RefLine)} {r : RefLine}
    (hr : r ∈ refHistory n blocks) :
    r.text = "Exception history" ∨ (∃ i, r.text = "Exception #" ++ decimal i) ∨
      ∃ b ∈ blocks, r ∈ b := by
  cases blocks with
  | nil => cases hr
  | cons b blocks =>
    rcases List.mem_cons.mp hr with rfl | hr
    · exact .inl rfl
    · obtain ⟨⟨b', i⟩, hb, hr⟩ := List.mem_flatMap.mp hr
      rcases List.mem_cons.mp hr with rfl | hr
      · exact .inr (.inl ⟨i, rfl⟩)
      · exact .inr (.inr ⟨b', (List.mem_zipIdx hb).2.2 ▸ List.getElem_mem _, hr⟩)

/-- What holds of the labels and of the texts of the exceptions holds of every line. -/
theorem forall_refBlock {P : Text → Prop} (hlabel : P "Exception history")
    (hnumber : ∀ i, P ("Exception #" ++ decimal i)) {t : ExcTree} (h : ∀ x ∈ t.ownTexts, P x) :
    (∀ n, ∀ r ∈ t.refBlock n, P r.text) ∧ ∀ n, ∀ b ∈ t.refChain n, ∀ r ∈ b, P r.text := by
  induction t with
  | null => exact ⟨fun _ => List.forall_mem_nil _, fun _ => List.forall_mem_nil _⟩
  | lomiri name reason nested earlier ihn ihe =>
    rw [ownTexts, List.forall_mem_cons, List.forall_mem_append] at h
    obtain ⟨hown, hn, he⟩ := h
    constructor
    · intro n
      refine List.forall_mem_cons.mpr ⟨hown, fun r hr => ?_⟩
      rcases List.mem_append.mp hr with hr | hr
      · rcases mem_refHistory hr with heq | ⟨i, heq⟩ | ⟨b, hb, hr⟩
        · exact heq ▸ hlabel
        · exact heq ▸ hnumber i
        · exact (ihe he).2 _ b hb r hr
      · exact (ihn hn).1 _ r hr
    · intro n b hb
      rcases List.mem_append.mp hb with hb | hb
      · exact (ihe he).2 n b hb
      · rw [List.mem_singleton.mp hb]
        exact List.forall_mem_cons.mpr ⟨hown, (ihn hn).1 _⟩
  | derived what nested ih | bare nested ih =>
    rw [ownTexts, List.forall_mem_cons] at h
    exact ⟨fun n => List.forall_mem_cons.mpr ⟨h.1, (ih h.2).1 _⟩, fun _ => List.forall_mem_nil _⟩
  | std what | unknown =>
    rw [ownTexts, List.forall_mem_singleton] at h
    exact ⟨fun n => List.forall_mem_singleton.mpr h, fun _ => List.forall_mem_nil _⟩

end ExcTree

/-- An indent that shows how deep a line is. With an empty one, all lines would begin at
the margin. -/
structure LegibleIndent (indent : Text) : Prop where
  ne_nil : indent ≠ []
  line : '\n' ∉ indent
  colon : indent.getLast? ≠ some ':'
  /-- the labels begin differently -/
  label : indent.head? ≠ some 'E'

/-- A text that fits on a line and begins differently from the indent. Else it could be a
shorter text one level deeper. -/
def Legible (indent x : Text) : Prop := Plain x ∧ ¬ indent <+: x

instance (indent x : Text) : Decidable (Legible indent x) := inferInstanceAs (Decidable (_ ∧ _))

theorem LegibleIndent.label_legible {indent : Text} (h : LegibleIndent indent) {x : Text}
    (hx : Plain ('E' :: x)) : Legible indent ('E' :: x) := by
  refine ⟨hx, fun hprefix => ?_⟩
  obtain ⟨c, indent, rfl⟩ := List.exists_cons_of_ne_nil h.ne_nil
  exact h.label (congrArg some (List.cons_prefix_cons.mp hprefix).1)

theorem render_inj {indent : Text} {r r' : RefLine} (hr : Legible indent r.text)
    (hr' : Legible indent r'.text) (h : r.render indent = r'.render indent) : r = r' := by
  rw [RefLine.render, RefLine.render, getMargin_eq_flatten, getMargin_eq_flatten] at h
  obtain ⟨hdepth, htext⟩ := margin_append_inj hr.2 hr'.2 h
  obtain ⟨d, x⟩ := r
  obtain rfl : d = r'.depth := hdepth
  obtain rfl : x = r'.text := htext
  rfl

/-- Legible lines can be read off, depth and text. -/
theorem map_render_inj {indent : Text} {rs rs' : List RefLine}
    (hrs : ∀ r ∈ rs, Legible indent r.text) (hrs' : ∀ r ∈ rs', Legible indent r.text)
    (h : rs.map (RefLine.render indent) = rs'.map (RefLine.render indent)) : rs = rs' := by
  induction rs generalizing rs' with
  | nil => exact (List.map_eq_nil_iff.mp h.symm).symm
  | cons r rs ih =>
    cases rs' with
    | nil => cases h
    | cons r' rs' =>
      rw [List.forall_mem_cons] at hrs hrs'
      obtain ⟨hhead, htail⟩ := List.cons.inj h
      rw [render_inj hrs.1 hrs'.1 hhead, ih hrs.2 hrs'.2 htail]

namespace ExcTree

/-- The structure can be told from others: only `lomiri::Exception`s in the histories,
and every exception has a legible text that is not the label of a history. -/
structure Readable (indent : Text) (t : ExcTree) : Prop where
  earlier : t.EarlierLomiri
  legible : ∀ x ∈ t.ownTexts, Legible indent x
  label : ("Exception history" : Text) ∉ t.ownTexts

theorem Readable.legible_refBlock {indent : Text} {t : ExcTree} (h : t.Readable indent)
    (hindent : LegibleIndent indent) (n : Nat) : ∀ r ∈ t.refBlock n, Legible indent r.text :=
  (forall_refBlock (hindent.label_legible (by decide))
    (fun i => hindent.label_legible (plain_exceptionNumber i)) h.legible).1 n

/-- Splitting the text and taking the `':'`s off gives the lines of the reference tree. -/
theorem Readable.splitOn {indent : Text} {t : ExcTree} (h : t.Readable indent)
    (hindent : LegibleIndent indent) (ht : t.IsLomiri) {n : Nat} (hne : t.outBlock n ≠ []) :
    ((printLines indent (t.outBlock n)).splitOn '\n').map dropColons =
      (t.refBlock n).map (RefLine.render indent) := by
  have href := outBlock_forget h.earlier ht n
  have hplain : ∀ l ∈ t.outBlock n, Plain l.text := by
    intro l hl
    have hmem : l.forget ∈ t.refBlock n := href ▸ List.mem_map_of_mem hl
    exact (h.legible_refBlock hindent n _ hmem).1
  rw [splitOn_printLines hindent.line hplain hne, ← href, List.map_map, List.map_map]
  exact List.map_congr_left fun l hl => dropColons_line hindent.colon (hplain l hl)

/-- The lines of the reference tree determine the depth and what can be seen. -/
theorem refBlock_inj {t t' : ExcTree} {n n' : Nat} (ht : t ≠ null)
    (hl : t.EarlierLomiri) (hl' : t'.EarlierLomiri)
    (hx : ("Exception history" : Text) ∉ t.ownTexts)
    (hx' : ("Exception history" : Text) ∉ t'.ownTexts) (h : t.refBlock n = t'.refBlock n') :
    n = n' ∧ t.seen = t'.seen := by
  rw [refBlock_eq_lines, refBlock_eq_lines] at h
  have hofLine : Function.Injective RefLine.ofLine := by
    rintro ⟨d, x⟩ ⟨d', x'⟩ heq
    obtain ⟨rfl, rfl⟩ := RefLine.mk.inj heq
    rfl
  have hlines := List.map_injective_iff.mpr hofLine h
  have hne : t.outline ≠ .nil := by
    cases t with
    | null => exact absurd rfl ht
    | _ => nofun
  obtain rfl := Outline.depth_inj hne hlines
  have houtline : t.seen.outline = t'.seen.outline := by
    rw [(outline_seen hl).1, (outline_seen hl').1]
    exact Outline.lines_inj hlines
  refine ⟨rfl, (outline_inj t.reduced_seen t'.reduced_seen ?_ ?_).1 houtline⟩
  · rw [ownTexts_seen]
    exact hx
  · rw [ownTexts_seen]
    exact hx'

end ExcTree

/-- **`to_string` is faithful.** Two readable structures, rendered at the levels `n` and
`n'`, have the same text exactly if the levels are the same and so is what can be seen of
the structures: the texts of the exceptions, what is nested in what, and the histories. -/
theorem Exception.toString_faithful {ρ ρ' : Type} {mem : ρ → Thrown ρ} {mem' : ρ' → Thrown ρ'}
    {e : Exception ρ} {e' : Exception ρ'} {t t' : ExcTree} {indent : Text}
    (ht : e.UnfoldsTo mem t) (ht' : e'.UnfoldsTo mem' t') (hindent : LegibleIndent indent)
    (hr : t.Readable indent) (hr' : t'.Readable indent) (n n' : Nat) :
    ∃ s s', (∀ fuel, 2 * t.size ≤ fuel → toStringAt mem fuel e n indent = .done s) ∧
      (∀ fuel, 2 * t'.size ≤ fuel → toStringAt mem' fuel e' n' indent = .done s') ∧
      (s = s' ↔ n = n' ∧ t.seen = t'.seen) := by
  refine ⟨_, _, fun _ => toStringAt_eq ht hr.earlier n indent,
    fun _ => toStringAt_eq ht' hr'.earlier n' indent, ?_⟩
  constructor
  · intro h
    have hlines := congrArg (fun s => (s.splitOn '\n').map dropColons) h
    rw [hr.splitOn hindent ht.isLomiri (ht.outBlock_ne_nil n),
      hr'.splitOn hindent ht'.isLomiri (ht'.outBlock_ne_nil n')] at hlines
    have hblock := map_render_inj (hr.legible_refBlock hindent n) (hr'.legible_refBlock hindent n')
      hlines
    have hne : t ≠ .null := by
      obtain ⟨-, -, -, -, rfl⟩ := ht
      nofun
    exact ExcTree.refBlock_inj hne hr.earlier hr'.earlier hr.label hr'.label hblock
  · rintro ⟨rfl, h⟩
    rw [← ExcTree.outBlock_seen hr.earlier ht.isLomiri,
      ← ExcTree.outBlock_seen hr'.earlier ht'.isLomiri, h]

/-- The report without the steps that failed. -/
def shortReport : Exception Nat := shutdownException none "Finalization problem"

theorem Exception.toString_faithful_shutdown :
    ∃ s s', (∀ fuel, 2 * shutdownTree.size ≤ fuel →
        toStringAt shutdownMem fuel shutdownReport 0 defaultIndent = .done s) ∧
      (∀ fuel, 2 ≤ fuel → toStringAt shutdownMem fuel shortReport 0 defaultIndent = .done s') ∧
      s ≠ s' := by
  have hindent : LegibleIndent defaultIndent := ⟨by decide, by decide, by decide, by decide⟩
  have hreadable : shutdownTree.Readable defaultIndent :=
    ⟨by simp [shutdownTree, ExcTree.EarlierLomiri, ExcTree.IsLomiri], by decide, by decide⟩
  have hbare : shortReport.UnfoldsTo shutdownMem
      (.lomiri "lomiri::ShutdownException" "Finalization problem" .null .null) :=
    ⟨_, _, .null, .null, rfl⟩
  obtain ⟨s, s', hs, hs', hiff⟩ := Exception.toString_faithful shutdownReport_unfolds hbare hindent
    hreadable ⟨⟨trivial, trivial, trivial⟩, by decide, by decide⟩ 0 0
  refine ⟨s, s', hs, hs', fun h => ?_⟩
  exact absurd (hiff.mp h).2 (by decide)

end LomiriApi
