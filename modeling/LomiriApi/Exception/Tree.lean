import LomiriApi.Exception.Basic
import LomiriApi.Lib.Lines

/-!
# Finite exception structures and the lines they print

- `ExcTree`: a finite, acyclic exception structure, that is, what a pointer's
  links unfold to (`null` for the null pointer). `Unfolds mem p t` says that the
  pointer `p` unfolds to `t` in the memory `mem`.
- `OutLine`: a line of output, with its depth (the number of indents in front of
  it), its text and whether a `':'` closes it. `outBlock` and `outHistory` list the
  lines of a structure by recursion on it, and `printLines` puts them together.
- `toStringAt_eq`: if every earlier link of the structure points to a
  `lomiri::Exception`, `to_string` prints exactly these lines.
-/

namespace LomiriApi

open Lib

/-- A finite, acyclic exception structure, or no exception. It is what rendering can see of
the objects: where two pointers lead to one object, the tree has it twice. -/
inductive ExcTree where
  | null
  | lomiri (name reason : Text) (nested earlier : ExcTree)
  | derived (what : Text) (nested : ExcTree)
  | bare (nested : ExcTree)
  | std (what : Text)
  | unknown
deriving DecidableEq, Repr

/-- The pointer unfolds to the tree. As the definition is inductive, a pointer whose links
never end unfolds to nothing, and that is how loops are kept out. -/
inductive Unfolds {ρ : Type} (mem : ρ → Thrown ρ) : Option ρ → ExcTree → Prop where
  | null : Unfolds mem none .null
  | lomiri {p : ρ} {e : Exception ρ} {nested earlier : ExcTree} :
      mem p = .nested (.lomiri e) → Unfolds mem e.nested nested → Unfolds mem e.earlier_ earlier →
      Unfolds mem (some p) (.lomiri e.name_ e.reason_ nested earlier)
  | derived {p : ρ} {what : Text} {np : Option ρ} {nested : ExcTree} :
      mem p = .nested (.derived what np) → Unfolds mem np nested →
      Unfolds mem (some p) (.derived what nested)
  | bare {p : ρ} {np : Option ρ} {nested : ExcTree} :
      mem p = .nested (.bare np) → Unfolds mem np nested → Unfolds mem (some p) (.bare nested)
  | std {p : ρ} {what : Text} : mem p = .std what → Unfolds mem (some p) (.std what)
  | unknown {p : ρ} : mem p = .unknown → Unfolds mem (some p) .unknown

/-- The object's links unfold to trees, which make up the tree of the object. The object
itself need not be in memory: `to_string` may be called on a local copy. -/
def Exception.UnfoldsTo {ρ : Type} (mem : ρ → Thrown ρ) (e : Exception ρ) (t : ExcTree) : Prop :=
  ∃ nested earlier, Unfolds mem e.nested nested ∧ Unfolds mem e.earlier_ earlier ∧
    t = .lomiri e.name_ e.reason_ nested earlier

/-- The text that `name()` and `reason()` make up. Without a reason there is no `": "`
either. -/
def nameAndReason (name reason : Text) : Text :=
  name ++ (if reason ≠ [] then ": " ++ reason else [])

namespace ExcTree

def size : ExcTree → Nat
  | null => 0
  | lomiri _ _ nested earlier => nested.size + earlier.size + 1
  | derived _ nested => nested.size + 1
  | bare nested => nested.size + 1
  | std _ => 1
  | unknown => 1

/-- The exception's own text. -/
def text : ExcTree → Text
  | null => []
  | lomiri name reason _ _ => nameAndReason name reason
  | derived what _ => what ++ derivedNote
  | bare _ => bareText
  | std what => what
  | unknown => unknownText

/-- No exception, or a `lomiri::Exception`: what the handler for histories can do with. -/
def IsLomiri : ExcTree → Prop
  | null | lomiri .. => True
  | _ => False

/-- Every earlier link of the structure points to a `lomiri::Exception`. Anything else
escapes from `follow_history`, which catches nothing but `lomiri::Exception`. -/
def EarlierLomiri : ExcTree → Prop
  | lomiri _ _ nested earlier => earlier.IsLomiri ∧ nested.EarlierLomiri ∧ earlier.EarlierLomiri
  | derived _ nested => nested.EarlierLomiri
  | bare nested => nested.EarlierLomiri
  | _ => True

/-- The number of exceptions in the history chain that starts here. -/
def chainLength : ExcTree → Nat
  | lomiri _ _ _ earlier => earlier.chainLength + 1
  | _ => 0

end ExcTree

theorem Exception.UnfoldsTo.isLomiri {ρ : Type} {mem : ρ → Thrown ρ} {e : Exception ρ} {t : ExcTree}
    (ht : e.UnfoldsTo mem t) : t.IsLomiri := by
  obtain ⟨tn, te, -, -, rfl⟩ := ht
  trivial

/-! ## Lines of output -/

/-- A line of output. Margin, text and `':'` are kept apart until the line is printed,
since the three come from different places in the code. -/
structure OutLine where
  depth : Nat
  text : Text
  colon : Bool
deriving DecidableEq, Repr

namespace OutLine

variable (indent : Text)

/-- The characters of a line. -/
def render (l : OutLine) : Text :=
  getMargin l.depth indent ++ l.text ++ (if l.colon then [':'] else [])

/-- Lines that each follow a newline. -/
def printAfter (ls : List OutLine) : Text := afterSep '\n' (ls.map (render indent))

/-- Lines with newlines between them. -/
def printLines (ls : List OutLine) : Text := joinSep '\n' (ls.map (render indent))

/-- Close the last line with a `':'`. The code writes it in front of the first nested line,
when it knows that there is one. -/
def closeLast : List OutLine → List OutLine
  | [] => []
  | [l] => [{ l with colon := true }]
  | l :: l' :: ls => l :: closeLast (l' :: ls)

/-- Put the lines of a nested exception after those of its parent, whose last line is
closed if anything follows. -/
def attach (ls : List OutLine) : List OutLine → List OutLine
  | [] => ls
  | m :: ms => closeLast ls ++ m :: ms

/-- What attaching lines adds to the text: the `':'` and the lines. -/
def printNested : List OutLine → Text
  | [] => []
  | m :: ms => ':' :: printAfter indent (m :: ms)

/-- The last line is not closed yet. Closing it twice would show, so this has to be known
before a nested exception is attached. -/
def LastOpen (ls : List OutLine) : Prop := ∃ ls' l, ls = ls' ++ [l] ∧ l.colon = false

@[simp] theorem printAfter_nil : printAfter indent [] = [] := rfl

@[simp] theorem printAfter_cons (l : OutLine) (ls : List OutLine) :
    printAfter indent (l :: ls) = '\n' :: (l.render indent ++ printAfter indent ls) := rfl

@[simp] theorem printAfter_append (ls ms : List OutLine) :
    printAfter indent (ls ++ ms) = printAfter indent ls ++ printAfter indent ms := by
  simp [printAfter]

theorem closeLast_append (ls : List OutLine) (l : OutLine) :
    closeLast (ls ++ [l]) = ls ++ [{ l with colon := true }] := by
  induction ls with
  | nil => rfl
  | cons a ls ih =>
    cases ls with
    | nil => rfl
    | cons b ls => exact congrArg (a :: ·) ih

theorem printAfter_attach {ls : List OutLine} (h : LastOpen ls) (ms : List OutLine) :
    printAfter indent (attach ls ms) = printAfter indent ls ++ printNested indent ms := by
  cases ms with
  | nil => exact (List.append_nil _).symm
  | cons m ms =>
    obtain ⟨ls', ⟨d, x, b⟩, rfl, hl⟩ := h
    obtain rfl : b = false := hl
    simp [attach, closeLast_append, render, printNested]

theorem lastOpen_append (ls : List OutLine) {ms : List OutLine} (h : LastOpen ms) :
    LastOpen (ls ++ ms) := by
  obtain ⟨ms', l, rfl, hl⟩ := h
  exact ⟨ls ++ ms', l, (List.append_assoc ..).symm, hl⟩

theorem lastOpen_attach {ls ms : List OutLine} (h : LastOpen ls) (hms : ms ≠ [] → LastOpen ms) :
    LastOpen (attach ls ms) := by
  cases ms with
  | nil => exact h
  | cons m ms => exact lastOpen_append _ (hms (List.cons_ne_nil m ms))

theorem lastOpen_single (d : Nat) (x : Text) : LastOpen [⟨d, x, false⟩] := ⟨[], _, rfl, rfl⟩

end OutLine

open OutLine

namespace ExcTree

/-- The line above a history chain, for an exception at level `n`. -/
def historyLabel : ExcTree → Int → List OutLine
  | null, _ => []
  | _, n => [⟨n.toNat + 1, "Exception history", true⟩]

/-- The number of indents in front of an exception at level `n` that is not a
`lomiri::Exception`: one more than for the exception that it is nested in. So it is never
0. -/
def foreignDepth (n : Int) : Nat := (n - 1).toNat + 1

mutual

/-- The lines of an exception at level `n`, with its history and what is nested in
it. -/
def outBlock : ExcTree → Int → List OutLine
  | null, _ => []
  | lomiri name reason nested earlier, n =>
    attach
      (⟨n.toNat, nameAndReason name reason, false⟩ ::
        (historyLabel earlier n ++ outHistory earlier (n + 2)))
      (outBlock nested (n + 1))
  | derived what nested, n =>
    attach [⟨foreignDepth n, (derived what nested).text, false⟩] (outBlock nested (n + 1))
  | bare nested, n =>
    attach [⟨foreignDepth n, (bare nested).text, false⟩] (outBlock nested (n + 1))
  | std what, n => [⟨foreignDepth n, what, false⟩]
  | unknown, n => [⟨foreignDepth n, unknown.text, false⟩]

/-- The entries of a history chain, oldest first, at level `n`. -/
def outHistory : ExcTree → Int → List OutLine
  | lomiri name reason nested earlier, n =>
    outHistory earlier n ++
      ⟨n.toNat, "Exception #" ++ decimal (earlier.chainLength + 1), true⟩ ::
      attach [⟨n.toNat + 1, nameAndReason name reason, false⟩] (outBlock nested (n + 1 + 1))
  | _, _ => []

end

@[simp] theorem foreignDepth_add_one (n : Int) : foreignDepth (n + 1) = n.toNat + 1 := by
  simp [foreignDepth]

/-- Above level `0`, every exception is as deep as its level says. -/
theorem foreignDepth_of_pos {n : Nat} (h : 0 < n) : foreignDepth n = n := by
  show ((n : Int) - 1).toNat + 1 = n
  omega

/-- The last line of a block or a history is open, so a `':'` can still be
attached to it. -/
theorem lastOpen_both {t : ExcTree} (hl : t.EarlierLomiri) (ht : t ≠ null) :
    (∀ n, LastOpen (t.outBlock n)) ∧ (t.IsLomiri → ∀ n, LastOpen (t.outHistory n)) := by
  induction t with
  | null => exact absurd rfl ht
  | lomiri name reason nested earlier ihn ihe =>
    obtain ⟨hchain, hn, he⟩ := hl
    have hnested : ∀ m, nested.outBlock m ≠ [] → LastOpen (nested.outBlock m) :=
      fun m hm => (ihn hn fun hnull => hm (by rw [hnull, outBlock])).1 m
    constructor
    · intro n
      refine lastOpen_attach ?_ (hnested _)
      by_cases hnull : earlier = null
      · subst hnull
        exact lastOpen_single _ _
      · exact lastOpen_append (_ :: historyLabel earlier n) ((ihe he hnull).2 hchain _)
    · intro _ n
      exact lastOpen_append _ (lastOpen_append [_] (lastOpen_attach (lastOpen_single _ _)
        (hnested _)))
  | derived what nested ih =>
    refine ⟨fun n => lastOpen_attach (lastOpen_single _ _) fun hne => ?_, False.elim⟩
    exact (ih hl fun hnull => hne (by rw [hnull, outBlock])).1 _
  | bare nested ih =>
    refine ⟨fun n => lastOpen_attach (lastOpen_single _ _) fun hne => ?_, False.elim⟩
    exact (ih hl fun hnull => hne (by rw [hnull, outBlock])).1 _
  | std what => exact ⟨fun _ => lastOpen_single _ _, False.elim⟩
  | unknown => exact ⟨fun _ => lastOpen_single _ _, False.elim⟩

/-- The own line and the history of a `lomiri::Exception` end in an open line. -/
theorem lastOpen_history {earlier : ExcTree} (hchain : earlier.IsLomiri)
    (he : earlier.EarlierLomiri) (name reason : Text) (n : Int) :
    LastOpen (⟨n.toNat, nameAndReason name reason, false⟩ ::
      (historyLabel earlier n ++ outHistory earlier (n + 2))) := by
  by_cases hnull : earlier = null
  · subst hnull
    exact lastOpen_single _ _
  · exact lastOpen_append (_ :: historyLabel earlier n) ((lastOpen_both he hnull).2 hchain _)

end ExcTree

/-! ## `to_string` prints these lines -/

section Rendering

variable {ρ : Type} (mem : ρ → Thrown ρ) (indent : Text)

/-- `to_string` on objects that unfold to `t`. It returns the lines, and twice the size of
the structure is enough fuel, one unit for each object and one for each link. -/
def ToStringPrints (t : ExcTree) : Prop :=
  ∀ e, Exception.UnfoldsTo mem e t → ∀ fuel, 2 * t.size ≤ fuel → ∀ n,
    ∃ s, toStringAt mem fuel e n indent = .done s ∧
      '\n' :: s = printAfter indent (t.outBlock n)

/-- `follow_history` on objects that unfold to `t`. It appends to the text that it is
given, and returns the number of exceptions to be used for the next one. -/
def FollowHistoryPrints (t : ExcTree) : Prop :=
  ∀ e, Exception.UnfoldsTo mem e t → ∀ fuel, 2 * t.size ≤ fuel → ∀ s n,
    followHistory mem fuel s e n indent =
      .done (s ++ printAfter indent (t.outHistory n), t.chainLength)

/-- `follow_nested` on objects whose nested pointer unfolds to `t`. It writes the `':'`
too, which belongs to the line before. -/
def FollowNestedPrints (t : ExcTree) : Prop :=
  ∀ e : NestedException ρ, Unfolds mem e.nestedPtr t → ∀ fuel, 2 * t.size + 1 ≤ fuel → ∀ s n,
    followNested mem fuel s e n indent =
      .done (s ++ printNested indent (t.outBlock (n + 1)))

theorem printNameAndReason_lomiri (s : Text) (e : Exception ρ) :
    printNameAndReason s (.lomiri e) = s ++ nameAndReason e.name_ e.reason_ := by
  by_cases h : e.reason_ = []
  · simp [printNameAndReason, nameAndReason, h]
  · simp [printNameAndReason, nameAndReason, h]

variable {mem indent}

/-- The links of an object, for which the fuel that is left is enough. -/
theorem Exception.UnfoldsTo.links {e : Exception ρ} {name reason : Text}
    {nested earlier : ExcTree} (h : e.UnfoldsTo mem (.lomiri name reason nested earlier))
    {fuel : Nat} (hfuel : 2 * (ExcTree.lomiri name reason nested earlier).size ≤ fuel) :
    ∃ k, fuel = k + 1 ∧ name = e.name_ ∧ reason = e.reason_ ∧
      Unfolds mem e.nested nested ∧ 2 * nested.size + 1 ≤ k ∧
      Unfolds mem e.earlier_ earlier ∧ 2 * earlier.size ≤ k := by
  obtain ⟨tn, te, hun, hue, heq⟩ := h
  obtain ⟨rfl, rfl, rfl, rfl⟩ := ExcTree.lomiri.inj heq
  rw [ExcTree.size] at hfuel
  exact ⟨fuel - 1, by omega, rfl, rfl, hun, by omega, hue, by omega⟩

/-- A pointer in a history chain is null or points to a `lomiri::Exception`. -/
theorem unfolds_chain {p : Option ρ} {t : ExcTree} (h : Unfolds mem p t) (ht : t.IsLomiri) :
    (p = none ∧ t = .null) ∨
      ∃ q e, p = some q ∧ mem q = .nested (.lomiri e) ∧ e.UnfoldsTo mem t := by
  cases h with
  | null => exact .inl ⟨rfl, rfl⟩
  | lomiri hq hn he => exact .inr ⟨_, _, rfl, hq, _, _, hn, he, rfl⟩
  | derived _ _ | bare _ _ | std _ | unknown _ => exact ht.elim

/-- The text of one history entry. -/
theorem printAfter_entry (n count : Nat) (x : Text) (ms : List OutLine) :
    printAfter indent (⟨n, "Exception #" ++ decimal count, true⟩ :: attach [⟨n + 1, x, false⟩] ms)
      = ("\n" ++ getMargin n indent ++ "Exception #") ++ (decimal count ++ ":\n") ++
          (getMargin n indent ++ indent) ++ x ++ printNested indent ms := by
  rw [printAfter_cons, printAfter_attach indent (lastOpen_single _ _)]
  simp [render, getMargin]

/-- The text of an exception's own line and its history. -/
theorem printAfter_own (n : Nat) (x : Text) (ls : List OutLine) :
    printAfter indent (⟨n, x, false⟩ :: ls)
      = '\n' :: (getMargin n indent ++ x ++ printAfter indent ls) := by
  simp [render]

theorem followHistoryPrints_lomiri {name reason : Text} {nested earlier : ExcTree}
    (hn : FollowNestedPrints mem indent nested) (he : FollowHistoryPrints mem indent earlier)
    (hchain : earlier.IsLomiri) :
    FollowHistoryPrints mem indent (.lomiri name reason nested earlier) := by
  intro e hu fuel hfuel s n
  obtain ⟨fuel, rfl, rfl, rfl, hun, hfn, hue, hfe⟩ := hu.links hfuel
  have hnested := hn (.lomiri e) hun fuel hfn
  rw [followHistory, ExcTree.outHistory, printAfter_append, printAfter_entry, ExcTree.chainLength]
  rcases unfolds_chain hue hchain with ⟨hp, rfl⟩ | ⟨q, e', hp, hq, he'⟩
  · -- the oldest exception
    simp only [hp, Result.bind_done, hnested, printNameAndReason_lomiri, Result.pure_eq]
    simp [ExcTree.outHistory, ExcTree.chainLength]
  · simp only [hp, hq, he e' he' fuel hfe, Result.bind_done, hnested,
      printNameAndReason_lomiri, Result.pure_eq]
    simp

theorem toStringPrints_lomiri {name reason : Text} {nested earlier : ExcTree}
    (hn : FollowNestedPrints mem indent nested) (he : FollowHistoryPrints mem indent earlier)
    (hchain : earlier.IsLomiri) (hl : earlier.EarlierLomiri) :
    ToStringPrints mem indent (.lomiri name reason nested earlier) := by
  intro e hu fuel hfuel n
  obtain ⟨fuel, rfl, rfl, rfl, hun, hfn, hue, hfe⟩ := hu.links hfuel
  have hnested := hn (.lomiri e) hun fuel hfn
  have hown : (if e.reason_ ≠ [] then getMargin n.toNat indent ++ e.name_ ++ (": " ++ e.reason_)
      else getMargin n.toNat indent ++ e.name_) =
        getMargin n.toNat indent ++ nameAndReason e.name_ e.reason_ :=
    printNameAndReason_lomiri (getMargin n.toNat indent) e
  rw [toStringAt, ExcTree.outBlock,
    printAfter_attach indent (ExcTree.lastOpen_history hchain hl _ _ _), printAfter_own]
  rcases unfolds_chain hue hchain with ⟨hp, rfl⟩ | ⟨q, e', hp, hq, he'⟩
  · -- no history
    refine ⟨_, ?_, rfl⟩
    simp only [hp, hown, Result.bind_done, hnested, Result.pure_eq]
    simp [ExcTree.outHistory, ExcTree.historyLabel]
  · have hhistory := he e' he' fuel hfe
    obtain ⟨tn', te', -, -, rfl⟩ := he'
    refine ⟨_, ?_, rfl⟩
    simp only [hp, hq, hown, hhistory, Result.bind_done, hnested, Result.pure_eq]
    simp [ExcTree.historyLabel, render, getMargin]

theorem followNestedPrints_null : FollowNestedPrints mem indent .null := by
  intro e hu fuel hfuel s n
  obtain ⟨fuel, rfl⟩ : ∃ k, fuel = k + 1 := ⟨fuel - 1, by omega⟩
  have hp : e.nestedPtr = none := by
    generalize e.nestedPtr = p at hu
    cases hu
    rfl
  simp [followNested, hp, ExcTree.outBlock, printNested]

/-- A nested `lomiri::Exception` is printed by its own `to_string`. -/
theorem followNestedPrints_lomiri {name reason : Text} {nested earlier : ExcTree}
    (hs : ToStringPrints mem indent (.lomiri name reason nested earlier)) :
    FollowNestedPrints mem indent (.lomiri name reason nested earlier) := by
  intro e hu fuel hfuel s n
  obtain ⟨fuel, rfl⟩ : ∃ k, fuel = k + 1 := ⟨fuel - 1, by omega⟩
  obtain ⟨p, e', hp, hq, hu'⟩ : ∃ p e', e.nestedPtr = some p ∧ mem p = .nested (.lomiri e') ∧
      e'.UnfoldsTo mem (.lomiri name reason nested earlier) := by
    rcases unfolds_chain hu trivial with ⟨-, h⟩ | h
    · cases h
    · exact h
  obtain ⟨text, htext, hlines⟩ := hs e' hu' fuel (by omega) (n + 1)
  have hblock : ∃ m ms, (ExcTree.lomiri name reason nested earlier).outBlock (n + 1) = m :: ms := by
    cases h : (ExcTree.lomiri name reason nested earlier).outBlock (n + 1) with
    | nil => rw [h] at hlines; cases hlines
    | cons m ms => exact ⟨m, ms, rfl⟩
  obtain ⟨m, ms, hms⟩ := hblock
  rw [hms] at hlines ⊢
  rw [followNested, printNested, ← hlines]
  simp [hp, hq, htext]

/-- The block of an exception that is not a `lomiri::Exception`, and of what is
nested in it. -/
theorem printNested_single (n : Nat) (x : Text) (ms : List OutLine) :
    printNested indent (attach [⟨n + 1, x, false⟩] ms)
      = ":\n" ++ (getMargin n indent ++ indent) ++ x ++ printNested indent ms := by
  obtain ⟨m, ms', hms⟩ : ∃ m ms', attach [⟨n + 1, x, false⟩] ms = m :: ms' := by
    cases ms with
    | nil => exact ⟨_, _, rfl⟩
    | cons a as => exact ⟨_, _, rfl⟩
  rw [hms, printNested, ← hms, printAfter_attach indent (lastOpen_single _ _)]
  simp [render, getMargin]

theorem printNested_line (n : Nat) (x : Text) :
    printNested indent [⟨n + 1, x, false⟩] = ":\n" ++ (getMargin n indent ++ indent) ++ x :=
  (printNested_single n x []).trans (List.append_nil _)

theorem followNestedPrints_derived {what : Text} {nested : ExcTree}
    (hn : FollowNestedPrints mem indent nested) :
    FollowNestedPrints mem indent (.derived what nested) := by
  intro e hu fuel hfuel s n
  rw [ExcTree.size] at hfuel
  obtain ⟨fuel, rfl⟩ : ∃ k, fuel = k + 1 := ⟨fuel - 1, by omega⟩
  generalize hp : e.nestedPtr = p at hu
  cases hu with
  | @derived q _ np _ hq hun =>
    rw [followNested, ExcTree.outBlock, ExcTree.foreignDepth_add_one, printNested_single]
    simp only [hp, hq, hn (.derived what np) hun fuel (by omega), printNameAndReason,
      ExcTree.text, List.append_assoc]

theorem followNestedPrints_bare {nested : ExcTree} (hn : FollowNestedPrints mem indent nested) :
    FollowNestedPrints mem indent (.bare nested) := by
  intro e hu fuel hfuel s n
  rw [ExcTree.size] at hfuel
  obtain ⟨fuel, rfl⟩ : ∃ k, fuel = k + 1 := ⟨fuel - 1, by omega⟩
  generalize hp : e.nestedPtr = p at hu
  cases hu with
  | @bare q np _ hq hun =>
    rw [followNested, ExcTree.outBlock, ExcTree.foreignDepth_add_one, printNested_single]
    simp only [hp, hq, hn (.bare np) hun fuel (by omega), printNameAndReason, ExcTree.text,
      List.append_assoc]

theorem followNestedPrints_std (what : Text) : FollowNestedPrints mem indent (.std what) := by
  intro e hu fuel hfuel s n
  obtain ⟨fuel, rfl⟩ : ∃ k, fuel = k + 1 := ⟨fuel - 1, by omega⟩
  generalize hp : e.nestedPtr = p at hu
  cases hu with
  | std hq =>
    rw [followNested, ExcTree.outBlock, ExcTree.foreignDepth_add_one, printNested_line]
    simp only [hp, hq, Result.pure_eq, List.append_assoc]

theorem followNestedPrints_unknown : FollowNestedPrints mem indent .unknown := by
  intro e hu fuel hfuel s n
  obtain ⟨fuel, rfl⟩ : ∃ k, fuel = k + 1 := ⟨fuel - 1, by omega⟩
  generalize hp : e.nestedPtr = p at hu
  cases hu with
  | unknown hq =>
    rw [followNested, ExcTree.outBlock, ExcTree.foreignDepth_add_one, printNested_line,
      ExcTree.text]
    simp only [hp, hq, Result.pure_eq, List.append_assoc]

/-- By induction on the structure, all three functions print its lines. -/
theorem rendering_prints {t : ExcTree} (hl : t.EarlierLomiri) :
    FollowNestedPrints mem indent t ∧
      (t.IsLomiri → FollowHistoryPrints mem indent t ∧ ToStringPrints mem indent t) := by
  induction t with
  | null =>
    refine ⟨followNestedPrints_null, fun _ => ⟨?_, ?_⟩⟩ <;>
    · rintro e ⟨tn, te, -, -, h⟩
      cases h
  | lomiri name reason nested earlier ihn ihe =>
    obtain ⟨hchain, hn, he⟩ := hl
    have hhistory := ((ihe he).2 hchain).1
    have hs : ToStringPrints mem indent (.lomiri name reason nested earlier) :=
      toStringPrints_lomiri (ihn hn).1 hhistory hchain he
    exact ⟨followNestedPrints_lomiri hs,
      fun _ => ⟨followHistoryPrints_lomiri (ihn hn).1 hhistory hchain, hs⟩⟩
  | derived what nested ih => exact ⟨followNestedPrints_derived (ih hl).1, False.elim⟩
  | bare nested ih => exact ⟨followNestedPrints_bare (ih hl).1, False.elim⟩
  | std what => exact ⟨followNestedPrints_std what, False.elim⟩
  | unknown => exact ⟨followNestedPrints_unknown, False.elim⟩

end Rendering

/-- **What `to_string` prints.** On an object whose links unfold to `t`, with
enough fuel for the size of `t`, and with every earlier link pointing to a
`lomiri::Exception`, `to_string` returns the lines of `t`. -/
theorem toStringAt_eq {ρ : Type} {mem : ρ → Thrown ρ} {e : Exception ρ} {t : ExcTree}
    (ht : e.UnfoldsTo mem t) (hl : t.EarlierLomiri) (n : Int) (indent : Text) {fuel : Nat}
    (hfuel : 2 * t.size ≤ fuel) :
    toStringAt mem fuel e n indent = .done (printLines indent (t.outBlock n)) := by
  obtain ⟨s, hs, hlines⟩ := ((rendering_prints hl).2 ht.isLomiri).2 e ht fuel hfuel n
  have htail : printLines indent (t.outBlock n) = (printAfter indent (t.outBlock n)).tail := rfl
  rw [hs, htail, ← hlines, List.tail_cons]

end LomiriApi
