import LomiriApi.Exception.Reference

/-!
# When an exception escapes from `to_string`

`to_string` and `follow_history` rethrow the earlier link of an exception under a
single handler, `catch (lomiri::Exception const&)`, while `remember` accepts every
`std::exception_ptr`. A structure with a foreign exception in one of its histories
therefore cannot be rendered: `rendering_throws`. Without one, the text shows
everything; and `what()` shows all of the text if there is no NUL in it:
`Exception.rendersAll_iff`.
-/

namespace LomiriApi

open Lib OutLine

/-- With enough fuel, the call comes back with `r`. -/
def Returns {ρ α : Type} (f : Nat → Result ρ α) (r : Result ρ α) : Prop :=
  ∃ k, ∀ fuel, k ≤ fuel → f fuel = r

/-- What a computation returns for all sufficient fuel is unique, so two ways to find the
result of a call agree. -/
theorem Returns.eq {ρ α : Type} {f : Nat → Result ρ α} {r r' : Result ρ α} (h : Returns f r)
    (h' : Returns f r') : r = r' := by
  obtain ⟨k, hk⟩ := h
  obtain ⟨k', hk'⟩ := h'
  rw [← hk (max k k') (Nat.le_max_left ..), hk' (max k k') (Nat.le_max_right ..)]

/-- `to_string` comes back with the lines of the structure. -/
theorem toStringAt_returns {ρ : Type} {mem : ρ → Thrown ρ} {e : Exception ρ} {t : ExcTree}
    (ht : e.UnfoldsTo mem t) (hl : t.EarlierLomiri) (n : Int) (indent : Text) :
    Returns (fun fuel => toStringAt mem fuel e n indent)
      (.done (printLines indent (t.outBlock n))) :=
  ⟨2 * t.size, fun _ => toStringAt_eq ht hl n indent⟩

/-- What each exception of the structure is shown as: its name and reason, its
`what()`, or what stands for an exception that has neither. -/
def ExcTree.shown : ExcTree → List Text
  | null => []
  | lomiri name reason nested earlier =>
    nameAndReason name reason :: (nested.shown ++ earlier.shown)
  | derived what nested => what :: nested.shown
  | bare nested => bareText :: nested.shown
  | std what => [what]
  | unknown => [unknownText]

/-- `to_string(n, indent)` returns a text that begins with the exception itself and
shows all that can be reached from it, and `what()` returns the text of
`to_string()`. -/
def Exception.RendersAll {ρ : Type} (mem : ρ → Thrown ρ) (e : Exception ρ) (t : ExcTree) (n : Nat)
    (indent : Text) : Prop :=
  (∃ s, Returns (fun fuel => toStringAt mem fuel e n indent) (.done s) ∧
    getMargin n indent ++ nameAndReason e.name_ e.reason_ <+: s ∧ ∀ x ∈ t.shown, x <:+: s) ∧
  ∃ s, Returns (fun fuel => toString_ mem fuel e defaultIndent) (.done s) ∧
    Returns (fun fuel => what mem fuel e) (.done s)

/-! ## A foreign exception in a history escapes -/

/-- Not a `lomiri::Exception`. -/
def Thrown.Foreign {ρ : Type} (x : Thrown ρ) : Prop := ∀ e, x ≠ .nested (.lomiri e)

section Throwing

variable {ρ : Type} (mem : ρ → Thrown ρ) (indent : Text)

/-- `to_string` of an exception with this structure throws, whatever the level. An
exception from elsewhere leaves it, which is not caught. -/
def ToStringThrows (t : ExcTree) : Prop :=
  ∀ e, Exception.UnfoldsTo mem e t → ∀ fuel, 2 * t.size ≤ fuel → ∀ n,
    ∃ x : Thrown ρ, x.Foreign ∧ toStringAt mem fuel e n indent = .threw x

/-- The same of the walk along the history. -/
def FollowHistoryThrows (t : ExcTree) : Prop :=
  ∀ e, Exception.UnfoldsTo mem e t → ∀ fuel, 2 * t.size ≤ fuel → ∀ s n,
    ∃ x : Thrown ρ, x.Foreign ∧ followHistory mem fuel s e n indent = .threw x

/-- The same of the walk into what is nested, which needs one more step to get from the
pointer to the object. -/
def FollowNestedThrows (t : ExcTree) : Prop :=
  ∀ e : NestedException ρ, Unfolds mem e.nestedPtr t → ∀ fuel, 2 * t.size + 1 ≤ fuel → ∀ s n,
    ∃ x : Thrown ρ, x.Foreign ∧ followNested mem fuel s e n indent = .threw x

variable {mem indent}

/-- A pointer to something that the handler for histories does not catch. -/
theorem unfolds_foreign {p : Option ρ} {t : ExcTree} (h : Unfolds mem p t) (ht : ¬ t.IsLomiri) :
    ∃ q, p = some q ∧ (mem q).Foreign := by
  cases h with
  | null | lomiri _ _ _ => exact absurd trivial ht
  | derived hq _ | bare hq _ | std hq | unknown hq =>
    refine ⟨_, rfl, fun e he => ?_⟩
    rw [hq] at he
    cases he

/-- A history whose head is foreign. -/
theorem lomiri_throws_of_foreign {name reason : Text} {nested earlier : ExcTree}
    (hchain : ¬ earlier.IsLomiri) :
    FollowHistoryThrows mem indent (.lomiri name reason nested earlier) ∧
      ToStringThrows mem indent (.lomiri name reason nested earlier) := by
  constructor
  · intro e hu fuel hfuel s n
    obtain ⟨fuel, rfl, rfl, rfl, -, -, hue, -⟩ := hu.links hfuel
    obtain ⟨q, hp, hq⟩ := unfolds_foreign hue hchain
    rw [followHistory, hp]
    dsimp only
    split
    · exact absurd ‹_› (hq _)
    · exact ⟨_, hq, rfl⟩
  · intro e hu fuel hfuel n
    obtain ⟨fuel, rfl, rfl, rfl, -, -, hue, -⟩ := hu.links hfuel
    obtain ⟨q, hp, hq⟩ := unfolds_foreign hue hchain
    rw [toStringAt, hp]
    dsimp only
    split
    · exact absurd ‹_› (hq _)
    · exact ⟨_, hq, rfl⟩

/-- A history that throws further back. -/
theorem lomiri_throws_of_history {name reason : Text} {nested earlier : ExcTree}
    (hchain : earlier.IsLomiri) (hnull : earlier ≠ .null)
    (he : FollowHistoryThrows mem indent earlier) :
    FollowHistoryThrows mem indent (.lomiri name reason nested earlier) ∧
      ToStringThrows mem indent (.lomiri name reason nested earlier) := by
  constructor
  · intro e hu fuel hfuel s n
    obtain ⟨fuel, rfl, rfl, rfl, -, -, hue, hfe⟩ := hu.links hfuel
    rcases unfolds_chain hue hchain with ⟨-, h⟩ | ⟨q, e', hp, hq, hu'⟩
    · exact absurd h hnull
    · obtain ⟨x, hforeign, hx⟩ := he e' hu' fuel hfe s n
      exact ⟨x, hforeign, by simp [followHistory, hp, hq, hx]⟩
  · intro e hu fuel hfuel n
    obtain ⟨fuel, rfl, rfl, rfl, -, -, hue, hfe⟩ := hu.links hfuel
    rcases unfolds_chain hue hchain with ⟨-, h⟩ | ⟨q, e', hp, hq, hu'⟩
    · exact absurd h hnull
    · obtain ⟨x, hforeign, hx⟩ := he e' hu' fuel hfe _ (n + 2)
      refine ⟨x, hforeign, ?_⟩
      rw [toStringAt]
      simp only [hp, hq]
      rw [hx]
      rfl

/-- A history that is printed, and a nested exception that throws. -/
theorem lomiri_throws_of_nested {name reason : Text} {nested earlier : ExcTree}
    (hchain : earlier.IsLomiri) (he : FollowHistoryPrints mem indent earlier)
    (hn : FollowNestedThrows mem indent nested) :
    FollowHistoryThrows mem indent (.lomiri name reason nested earlier) ∧
      ToStringThrows mem indent (.lomiri name reason nested earlier) := by
  constructor
  · intro e hu fuel hfuel s n
    obtain ⟨fuel, rfl, rfl, rfl, hun, hfn, hue, hfe⟩ := hu.links hfuel
    have hnested := hn (.lomiri e) hun fuel hfn
    rw [followHistory]
    rcases unfolds_chain hue hchain with ⟨hp, -⟩ | ⟨q, e', hp, hq, hu'⟩
    · obtain ⟨x, hforeign, hx⟩ := hnested _ (n + 1)
      refine ⟨x, hforeign, ?_⟩
      simp only [hp, Result.pure_eq, Result.bind_done]
      rw [hx]
      rfl
    · obtain ⟨x, hforeign, hx⟩ := hnested _ (n + 1)
      refine ⟨x, hforeign, ?_⟩
      simp only [hp, hq, he e' hu' fuel hfe, Result.pure_eq, Result.bind_done]
      rw [hx]
      rfl
  · intro e hu fuel hfuel n
    obtain ⟨fuel, rfl, rfl, rfl, hun, hfn, hue, hfe⟩ := hu.links hfuel
    have hnested := hn (.lomiri e) hun fuel hfn
    rw [toStringAt]
    rcases unfolds_chain hue hchain with ⟨hp, -⟩ | ⟨q, e', hp, hq, hu'⟩
    · obtain ⟨x, hforeign, hx⟩ := hnested _ n
      refine ⟨x, hforeign, ?_⟩
      simp only [hp, Result.pure_eq, Result.bind_done]
      exact hx
    · obtain ⟨x, hforeign, hx⟩ := hnested _ n
      refine ⟨x, hforeign, ?_⟩
      simp only [hp, hq, he e' hu' fuel hfe, Result.pure_eq, Result.bind_done]
      exact hx

/-- What leaves `to_string` of a nested exception leaves the walk, as the handler there is
for the nested exception itself. -/
theorem followNestedThrows_lomiri {name reason : Text} {nested earlier : ExcTree}
    (hs : ToStringThrows mem indent (.lomiri name reason nested earlier)) :
    FollowNestedThrows mem indent (.lomiri name reason nested earlier) := by
  intro e hu fuel hfuel s n
  obtain ⟨fuel, rfl⟩ : ∃ k, fuel = k + 1 := ⟨fuel - 1, by omega⟩
  rcases unfolds_chain hu trivial with ⟨-, h⟩ | ⟨q, e', hp, hq, hu'⟩
  · cases h
  · obtain ⟨x, hforeign, hx⟩ := hs e' hu' fuel (by omega) (n + 1)
    exact ⟨x, hforeign, by simp [followNested, hp, hq, hx]⟩

/-- An exception from elsewhere passes on what leaves the walk into it. -/
theorem followNestedThrows_derived {what : Text} {nested : ExcTree}
    (hn : FollowNestedThrows mem indent nested) :
    FollowNestedThrows mem indent (.derived what nested) := by
  intro e hu fuel hfuel s n
  rw [ExcTree.size] at hfuel
  obtain ⟨fuel, rfl⟩ : ∃ k, fuel = k + 1 := ⟨fuel - 1, by omega⟩
  generalize hp : e.nestedPtr = p at hu
  cases hu with
  | @derived q _ np _ hq hun =>
    rw [followNested]
    simp only [hp, hq]
    exact hn (.derived what np) hun fuel (by omega) _ (n + 1)

/-- So does a `std::nested_exception` without a text. -/
theorem followNestedThrows_bare {nested : ExcTree} (hn : FollowNestedThrows mem indent nested) :
    FollowNestedThrows mem indent (.bare nested) := by
  intro e hu fuel hfuel s n
  rw [ExcTree.size] at hfuel
  obtain ⟨fuel, rfl⟩ : ∃ k, fuel = k + 1 := ⟨fuel - 1, by omega⟩
  generalize hp : e.nestedPtr = p at hu
  cases hu with
  | @bare q np _ hq hun =>
    rw [followNested]
    simp only [hp, hq]
    exact hn (.bare np) hun fuel (by omega) _ (n + 1)

/-- By induction on the structure: a foreign exception in one of its histories is
thrown out of all three functions. -/
theorem rendering_throws {t : ExcTree} (hl : ¬ t.EarlierLomiri) :
    FollowNestedThrows mem indent t ∧
      (t.IsLomiri → FollowHistoryThrows mem indent t ∧ ToStringThrows mem indent t) := by
  induction t with
  | null | std _ | unknown => exact absurd trivial hl
  | lomiri name reason nested earlier ihn ihe =>
    have hthrows : FollowHistoryThrows mem indent (.lomiri name reason nested earlier) ∧
        ToStringThrows mem indent (.lomiri name reason nested earlier) := by
      by_cases hchain : earlier.IsLomiri
      · by_cases he : earlier.EarlierLomiri
        · have hn : ¬ nested.EarlierLomiri := fun hn => hl ⟨hchain, hn, he⟩
          exact lomiri_throws_of_nested hchain ((rendering_prints he).2 hchain).1 (ihn hn).1
        · exact lomiri_throws_of_history hchain (fun hnull => he (hnull ▸ trivial))
            ((ihe he).2 hchain).1
      · exact lomiri_throws_of_foreign hchain
    exact ⟨followNestedThrows_lomiri hthrows.2, fun _ => hthrows⟩
  | derived what nested ih => exact ⟨followNestedThrows_derived (ih hl).1, False.elim⟩
  | bare nested ih => exact ⟨followNestedThrows_bare (ih hl).1, False.elim⟩

end Throwing

/-! ## Everything that is reached is shown -/

/-- Numbering the exceptions of a history keeps their lines. -/
theorem mem_numbered {n : Nat} {blocks : List (List RefLine)} {b : List RefLine} (hb : b ∈ blocks)
    {r : RefLine} (hr : r ∈ b) : r ∈ numbered n blocks := by
  obtain ⟨i, hi⟩ : ∃ i, (b, i) ∈ blocks.zipIdx 1 := by
    obtain ⟨i, hi, rfl⟩ := List.mem_iff_getElem.mp hb
    refine ⟨1 + i, List.mem_iff_getElem.mpr ⟨i, by simpa using hi, by simp⟩⟩
  exact List.mem_flatMap.mpr ⟨(b, i), hi, List.mem_cons_of_mem _ hr⟩

/-- All lines of the numbered exceptions are in the history. -/
theorem mem_refHistory {n : Nat} {blocks : List (List RefLine)} {b : List RefLine}
    (hb : b ∈ blocks) {r : RefLine} (hr : r ∈ b) : r ∈ refHistory n blocks := by
  cases blocks with
  | nil => cases hb
  | cons c blocks => exact List.mem_cons_of_mem _ (mem_numbered hb hr)

namespace ExcTree

/-- What is to be shown is in some line. An exception and the exceptions of its history
contain each other, so both statements go through one induction. -/
theorem shown_both {t : ExcTree} (hl : t.EarlierLomiri) {x : Text} (hx : x ∈ t.shown) :
    (∀ n, ∃ r ∈ t.refBlock n, x <:+: r.text) ∧
      (t.IsLomiri → ∀ n, ∃ b ∈ t.refChain n, ∃ r ∈ b, x <:+: r.text) := by
  induction t with
  | null => cases hx
  | lomiri name reason nested earlier ihn ihe =>
    obtain ⟨hchain, hn, he⟩ := hl
    rw [shown, List.mem_cons, List.mem_append] at hx
    rcases hx with rfl | hx | hx
    · -- its own text
      exact ⟨fun n => ⟨_, List.mem_cons_self, List.infix_rfl⟩, fun _ n =>
        ⟨_, List.mem_append_right _ (List.mem_singleton_self _), _, List.mem_cons_self,
          List.infix_rfl⟩⟩
    · -- nested
      constructor
      · intro n
        obtain ⟨r, hr, hxr⟩ := (ihn hn hx).1 (n + 1)
        exact ⟨r, List.mem_cons_of_mem _ (List.mem_append_right _ hr), hxr⟩
      · intro _ n
        obtain ⟨r, hr, hxr⟩ := (ihn hn hx).1 (n + 1)
        exact ⟨_, List.mem_append_right _ (List.mem_singleton_self _), r,
          List.mem_cons_of_mem _ hr, hxr⟩
    · -- in the history
      constructor
      · intro n
        obtain ⟨b, hb, r, hr, hxr⟩ := (ihe he hx).2 hchain (n + 3)
        exact ⟨r, List.mem_cons_of_mem _ (List.mem_append_left _ (mem_refHistory hb hr)), hxr⟩
      · intro _ n
        obtain ⟨b, hb, r, hr, hxr⟩ := (ihe he hx).2 hchain n
        exact ⟨b, List.mem_append_left _ hb, r, hr, hxr⟩
  | derived what nested ih =>
    refine ⟨fun n => ?_, False.elim⟩
    rcases List.mem_cons.mp hx with rfl | hx
    · exact ⟨_, List.mem_cons_self, List.infix_append_left⟩
    · obtain ⟨r, hr, hxr⟩ := (ih hl hx).1 (n + 1)
      exact ⟨r, List.mem_cons_of_mem _ hr, hxr⟩
  | bare nested ih =>
    refine ⟨fun n => ?_, False.elim⟩
    rcases List.mem_cons.mp hx with rfl | hx
    · exact ⟨_, List.mem_cons_self, List.infix_rfl⟩
    · obtain ⟨r, hr, hxr⟩ := (ih hl hx).1 (n + 1)
      exact ⟨r, List.mem_cons_of_mem _ hr, hxr⟩
  | std what =>
    obtain rfl := List.mem_singleton.mp hx
    exact ⟨fun n => ⟨_, List.mem_singleton_self _, List.infix_rfl⟩, False.elim⟩
  | unknown =>
    obtain rfl := List.mem_singleton.mp hx
    exact ⟨fun n => ⟨_, List.mem_singleton_self _, List.infix_rfl⟩, False.elim⟩

/-- Every line of the reference tree is part of the printed text. -/
theorem infix_printLines {t : ExcTree} (hl : t.EarlierLomiri) (ht : t.IsLomiri) (n : Nat)
    (indent : Text) {r : RefLine} (hr : r ∈ t.refBlock n) :
    r.text <:+: printLines indent (t.outBlock n) := by
  rw [← outBlock_forget hl ht n] at hr
  obtain ⟨l, hmem, rfl⟩ := List.mem_map.mp hr
  have hline : l.text <:+: l.render indent :=
    List.infix_append_right.trans List.infix_append_left
  exact hline.trans (infix_joinSep (List.mem_map_of_mem hmem))

/-- The printed text begins with the exception itself. -/
theorem prefix_printLines {name reason : Text} {nested earlier : ExcTree}
    (hl : (lomiri name reason nested earlier).EarlierLomiri) (n : Nat) (indent : Text) :
    getMargin n indent ++ nameAndReason name reason <+:
      printLines indent ((lomiri name reason nested earlier).outBlock n) := by
  have href := outBlock_forget hl trivial n
  rw [refBlock] at href
  obtain ⟨l, ls, hout, hforget, -⟩ := List.map_eq_cons_iff.mp href
  have hown : getMargin n indent ++ nameAndReason name reason <+: l.render indent := by
    have hl' : RefLine.mk l.depth l.text = ⟨n, nameAndReason name reason⟩ := hforget
    rw [RefLine.mk.injEq] at hl'
    rw [render, hl'.1, hl'.2]
    exact List.prefix_append _ _
  rw [hout]
  exact hown.trans (List.prefix_append _ _)

end ExcTree

/-- The text shows every exception that is reached. -/
theorem infix_of_shown {t : ExcTree} (hl : t.EarlierLomiri) (ht : t.IsLomiri) (n : Nat)
    (indent : Text) {x : Text} (hx : x ∈ t.shown) :
    x <:+: printLines indent (t.outBlock n) := by
  obtain ⟨r, hr, hxr⟩ := (ExcTree.shown_both hl hx).1 n
  exact hxr.trans (ExcTree.infix_printLines hl ht n indent hr)

/-! ## Texts with an embedded NUL -/

/-- `c_str()` shows the whole string exactly if there is no NUL in it. -/
theorem cStr_eq_self_iff {s : Text} : cStr s = s ↔ NulFree s := by
  refine ⟨fun h hmem => ?_, cStr_of_nulFree⟩
  have hne := List.takeWhile_eq_self_iff.mp h '\x00' hmem
  exact absurd hne (by decide)

/-- The texts that rendering adds itself, but for the numbers of the history. -/
def addedTexts : List Text :=
  ["Exception history", "Exception #", ": ", derivedNote, bareText, unknownText]

/-- A character that rendering does not add is in a line only if it is in a text. -/
theorem lineProperty_notMem {c : Char} (hadded : ∀ x ∈ addedTexts, c ∉ x)
    (hdigit : c.isDigit = false) : LineProperty (c ∉ ·) where
  label := hadded _ List.mem_cons_self
  number i hmem := by
    refine (List.mem_append.mp hmem).elim (hadded _ (by simp [addedTexts])) fun hc => ?_
    rw [Nat.isDigit_of_mem_toDigits (by decide) (by decide) hc] at hdigit
    cases hdigit
  own {name reason} hname hreason hmem := by
    refine (List.mem_append.mp hmem).elim hname fun hc => ?_
    split at hc
    · exact (List.mem_append.mp hc).elim (hadded _ (by simp [addedTexts])) hreason
    · cases hc
  derived hwhat hmem := (List.mem_append.mp hmem).elim hwhat (hadded _ (by simp [addedTexts]))
  bare := hadded _ (by simp [addedTexts])
  unknown := hadded _ (by simp [addedTexts])

/-- The margin of `what()` is made of spaces. -/
theorem nul_notMem_getMargin (n : Nat) : '\x00' ∉ getMargin n defaultIndent := by
  induction n with
  | zero => simp [getMargin]
  | succ n ih => exact fun hmem => (List.mem_append.mp hmem).elim ih (by decide)

/-- A line is as free of NULs as its text, with the indent of `what()`. -/
theorem nul_notMem_render {l : OutLine} (hl : NulFree l.text) :
    NulFree (l.render defaultIndent) := by
  rw [NulFree, render, List.mem_append, List.mem_append, not_or, not_or]
  refine ⟨⟨nul_notMem_getMargin l.depth, hl⟩, ?_⟩
  cases l.colon <;> decide

namespace ExcTree

/-- What is in one of the texts of a structure is shown. -/
theorem exists_mem_shown {t : ExcTree} {x : Text} (hx : x ∈ t.texts) {c : Char} (hc : c ∈ x) :
    ∃ y ∈ t.shown, c ∈ y := by
  induction t with
  | null | unknown => cases hx
  | lomiri name reason nested earlier ihn ihe =>
    rw [texts, List.mem_cons, List.mem_cons, List.mem_append] at hx
    rcases hx with rfl | rfl | hx | hx
    · exact ⟨_, List.mem_cons_self, List.mem_append_left _ hc⟩
    · refine ⟨_, List.mem_cons_self, List.mem_append_right _ ?_⟩
      rw [if_pos (List.ne_nil_of_mem hc)]
      exact List.mem_append_right _ hc
    · obtain ⟨y, hy, hcy⟩ := ihn hx
      exact ⟨y, List.mem_cons_of_mem _ (List.mem_append_left _ hy), hcy⟩
    · obtain ⟨y, hy, hcy⟩ := ihe hx
      exact ⟨y, List.mem_cons_of_mem _ (List.mem_append_right _ hy), hcy⟩
  | derived what nested ih =>
    rcases List.mem_cons.mp hx with rfl | hx
    · exact ⟨_, List.mem_cons_self, hc⟩
    · obtain ⟨y, hy, hcy⟩ := ih hx
      exact ⟨y, List.mem_cons_of_mem _ hy, hcy⟩
  | bare nested ih =>
    obtain ⟨y, hy, hcy⟩ := ih hx
    exact ⟨y, List.mem_cons_of_mem _ hy, hcy⟩
  | std what =>
    obtain rfl := List.mem_singleton.mp hx
    exact ⟨_, List.mem_singleton_self _, hc⟩

/-- The rendered text has a NUL exactly if one of the texts that it is made of has. -/
theorem nulFree_printLines_iff {t : ExcTree} (hl : t.EarlierLomiri) (ht : t.IsLomiri) (n : Nat) :
    NulFree (printLines defaultIndent (t.outBlock n)) ↔ ∀ x ∈ t.texts, NulFree x := by
  constructor
  · intro h x hx hmem
    obtain ⟨y, hy, hmem⟩ := exists_mem_shown hx hmem
    exact h ((infix_of_shown hl ht n defaultIndent hy).subset hmem)
  · intro h hmem
    have hlines := (lineProperty_notMem (by decide) (by decide)).outBlock h n
    rcases List.mem_flatMap.mp (List.mem_of_mem_tail hmem) with ⟨line, hline, hmem⟩
    obtain ⟨l, hl, rfl⟩ := List.mem_map.mp hline
    rcases List.mem_cons.mp hmem with heq | hmem
    · exact absurd heq (by decide)
    · exact nul_notMem_render (hlines l hl) hmem

end ExcTree

/-- `what()` passes the text of `to_string()` on, up to its first NUL. -/
theorem what_eq {ρ : Type} {mem : ρ → Thrown ρ} {e : Exception ρ} {t : ExcTree}
    (ht : e.UnfoldsTo mem t) (hl : t.EarlierLomiri) {fuel : Nat} (hfuel : 2 * t.size + 1 ≤ fuel) :
    what mem fuel e = .done (cStr (printLines defaultIndent (t.outBlock 0))) := by
  obtain ⟨fuel, rfl⟩ : ∃ k, fuel = k + 1 := ⟨fuel - 1, by omega⟩
  rw [what, toString_, toStringAt_eq ht hl 0 defaultIndent (by omega)]

/-- Without NULs that is all of it. -/
theorem what_returns {ρ : Type} {mem : ρ → Thrown ρ} {e : Exception ρ} {t : ExcTree}
    (ht : e.UnfoldsTo mem t) (hl : t.EarlierLomiri) (hnul : ∀ x ∈ t.texts, NulFree x) :
    Returns (fun fuel => what mem fuel e) (.done (printLines defaultIndent (t.outBlock 0))) := by
  refine ⟨2 * t.size + 1, fun fuel hfuel => ?_⟩
  have hfree := (ExcTree.nulFree_printLines_iff hl ht.isLomiri 0).mpr hnul
  exact (what_eq ht hl hfuel).trans (congrArg Result.done (cStr_of_nulFree hfree))

/-- An exception renders all that can be reached from it exactly when every earlier
link of its structure points to a `lomiri::Exception` and no text in it has an
embedded NUL, behind which the C string that `what()` returns would not go on. -/
theorem Exception.rendersAll_iff {ρ : Type} {mem : ρ → Thrown ρ} {e : Exception ρ} {t : ExcTree}
    (ht : e.UnfoldsTo mem t) (n : Nat) (indent : Text) :
    e.RendersAll mem t n indent ↔ t.EarlierLomiri ∧ ∀ x ∈ t.texts, NulFree x := by
  constructor
  · rintro ⟨⟨s, ⟨k, hs⟩, -⟩, s', hs', hwhat⟩
    have hl : t.EarlierLomiri := by
      by_contra hl
      have hthrows : ToStringThrows mem indent t := ((rendering_throws hl).2 ht.isLomiri).2
      obtain ⟨x, -, hx⟩ := hthrows e ht (max k (2 * t.size)) (Nat.le_max_right ..) n
      cases hx.symm.trans (hs _ (Nat.le_max_left ..))
    refine ⟨hl, (ExcTree.nulFree_printLines_iff hl ht.isLomiri 0).mp (cStr_eq_self_iff.mp ?_)⟩
    have htext := hs'.eq (toStringAt_returns ht hl 0 defaultIndent)
    have hcStr := hwhat.eq ⟨_, fun _ => what_eq ht hl⟩
    rw [Result.done.inj htext] at hcStr
    exact (Result.done.inj hcStr).symm
  · rintro ⟨hl, hnul⟩
    refine ⟨⟨_, toStringAt_returns ht hl n indent, ?_,
      fun _ => infix_of_shown hl ht.isLomiri n indent⟩,
      _, toStringAt_returns ht hl 0 defaultIndent, what_returns ht hl hnul⟩
    obtain ⟨tn, te, -, -, rfl⟩ := ht
    exact ExcTree.prefix_printLines hl n indent

/-- The report of a shutdown shows all its exceptions. -/
theorem Exception.rendersAll_iff_shutdown :
    shutdownReport.RendersAll shutdownMem shutdownTree 2 "  " :=
  (Exception.rendersAll_iff shutdownReport_unfolds 2 "  ").mpr
    ⟨by simp [shutdownTree, ExcTree.EarlierLomiri, ExcTree.IsLomiri], by decide⟩

/-- A memory in which every pointer refers to a `std::runtime_error`. -/
def runtimeErrorMem : Nat → Thrown Nat := fun _ => .std "no route to host"

/-- An exception that remembers it, as in the documentation of the class. -/
def remembersForeign : Exception Nat :=
  { invalidArgumentException none "Step 2" with earlier_ := some 0 }

/-- A `std::runtime_error` that is remembered leaves `to_string` as it is, and nothing is
rendered. -/
theorem Exception.rendering_throws_runtimeError :
    ¬ ∀ (mem : Nat → Thrown Nat) (e : Exception Nat) (t : ExcTree), e.UnfoldsTo mem t →
      ∀ n indent, e.RendersAll mem t n indent := by
  intro h
  have hunfolds : remembersForeign.UnfoldsTo runtimeErrorMem (.lomiri
      "lomiri::InvalidArgumentException" "Step 2" .null (.std "no route to host")) :=
    ⟨_, _, .null, .std (p := 0) rfl, rfl⟩
  obtain ⟨⟨s, hs, -⟩, -⟩ := h _ _ _ hunfolds 0 defaultIndent
  have hthrows : Returns
      (fun fuel => toStringAt runtimeErrorMem fuel remembersForeign 0 defaultIndent)
      (.threw (.std "no route to host")) := by
    refine ⟨1, fun fuel hfuel => ?_⟩
    obtain ⟨fuel, rfl⟩ : ∃ k, fuel = k + 1 := ⟨fuel - 1, by omega⟩
    simp only [toStringAt]
    rfl
  cases hs.eq hthrows

end LomiriApi
