import LomiriApi.ResourcePtr.Custody
import LomiriApi.Lib.Run

/-!
# Sources of the main loop (GlibMemory.h)

A `GSourceManager` is a `ResourcePtr` that holds the tag of a source; its deleter, a
`GSourceUnsubscriber`, removes the source. But a source may also end by itself: it is
removed when its callback returns `G_SOURCE_REMOVE`. And nothing keeps a client from
removing the source that a manager holds.

- `GSources C`: the functions of GLib for sources, which are not part of the repository
  and so a parameter; `GSources.Laws`: what is relied on.
- `Loop`: the main context, the client's own tags, and the managers, which are a `World`
  of `ResourcePtr`s.
- `Loop.step`: attaching sources, dispatching their callbacks, removing them by any tag,
  and all operations on managers.
- `Loop.managed_iff_owned`: every source that is attached has one owner who will remove
  it, and no source is removed that is not there, exactly if the managers are handed
  sources of the client's, and no source ends or is removed while a manager holds it.
-/

namespace LomiriApi

open Lib

/-! ## What GLib does -/

/-- The functions of GLib for the sources of the default main context, over the states
`C` of the context. A source is given by its tag. -/
structure GSources (C : Type) where
  /-- `g_main_context_find_source_by_id` finds a source -/
  hasSource : C → Nat → Bool
  /-- `g_timeout_add` and the like: the tag of the new source -/
  addSource : C → C × Nat
  /-- `g_source_remove`: whether there was such a source -/
  sourceRemove : C → Nat → C × Bool
  /-- the callback of a source runs, and returns whether the source stays -/
  dispatch : C → Nat → Bool → C

/-- What is assumed of them. A new tag is one that no source has at the moment; it may
have been that of a source that is gone. -/
structure GSources.Laws {C : Type} (G : GSources C) : Prop where
  /-- tags are positive -/
  hasSource_zero : ∀ c, G.hasSource c 0 = false
  /-- the tag of a new source is that of none which is attached -/
  addSource_fresh : ∀ c, G.hasSource c (G.addSource c).2 = false
  /-- the new source is attached -/
  hasSource_addSource : ∀ c k, G.hasSource (G.addSource c).1 k = true ↔
    k = (G.addSource c).2 ∨ G.hasSource c k = true
  /-- what `g_source_remove` returns -/
  sourceRemove_found : ∀ c tag, (G.sourceRemove c tag).2 = G.hasSource c tag
  /-- the source is attached no longer, if it was -/
  hasSource_sourceRemove : ∀ c tag k, G.hasSource (G.sourceRemove c tag).1 k = true ↔
    G.hasSource c k = true ∧ k ≠ tag
  /-- a callback that returns `G_SOURCE_CONTINUE` -/
  hasSource_continue : ∀ c tag k, G.hasSource c tag = true →
    G.hasSource (G.dispatch c tag true) k = G.hasSource c k
  /-- a callback that returns `G_SOURCE_REMOVE` -/
  hasSource_end : ∀ c tag k, G.hasSource c tag = true →
    (G.hasSource (G.dispatch c tag false) k = true ↔ G.hasSource c k = true ∧ k ≠ tag)

/-- A main context that gives its tags out one after the other, as GLib does until the
counter wraps around. -/
structure CountingContext where
  sources : List Nat
  lastTag : Nat
  given : ∀ tag ∈ sources, 0 < tag ∧ tag ≤ lastTag

namespace CountingContext

def empty : CountingContext := ⟨[], 0, List.forall_mem_nil _⟩

/-- The context with a new source. -/
def next (c : CountingContext) : CountingContext :=
  ⟨(c.lastTag + 1) :: c.sources, c.lastTag + 1, List.forall_mem_cons.mpr
    ⟨⟨Nat.succ_pos _, Nat.le_refl _⟩, fun tag htag =>
      ⟨(c.given tag htag).1, Nat.le_succ_of_le (c.given tag htag).2⟩⟩⟩

def without (c : CountingContext) (tag : Nat) : CountingContext :=
  ⟨c.sources.filter (· ≠ tag), c.lastTag, fun k hk => c.given k (List.mem_of_mem_filter hk)⟩

theorem mem_without (c : CountingContext) (tag k : Nat) :
    k ∈ (c.without tag).sources ↔ k ∈ c.sources ∧ k ≠ tag := by
  simp [without]

end CountingContext

def countingSources : GSources CountingContext where
  hasSource c tag := decide (tag ∈ c.sources)
  addSource c := (c.next, c.lastTag + 1)
  sourceRemove c tag := (c.without tag, decide (tag ∈ c.sources))
  dispatch c tag continues := if continues then c else c.without tag

/-- The laws hold of this context, so the theorem on managers is about something. -/
theorem countingSources_laws : countingSources.Laws where
  hasSource_zero c := decide_eq_false fun h => Nat.lt_irrefl 0 (c.given 0 h).1
  addSource_fresh c := decide_eq_false fun h => Nat.not_succ_le_self _ (c.given _ h).2
  hasSource_addSource c k := by simp [countingSources, CountingContext.next]
  hasSource_sourceRemove c tag k := by
    simpa [countingSources] using c.mem_without tag k
  sourceRemove_found _ _ := rfl
  hasSource_continue _ _ _ _ := rfl
  hasSource_end c tag k _ := by
    simpa [countingSources] using c.mem_without tag k

/-! ## Sources and managers -/

/-- `GSourceUnsubscriber` has no data. The resource is the tag of the source, and all
deleters are alike. -/
abbrev GSourceUnsubscriber := Unit

structure Loop (C : Type) where
  context : C
  /-- the sources that are the client's to remove -/
  loose : List Nat
  /-- removals of sources that were not there: GLib prints a warning -/
  missed : List Nat
  managers : World Nat GSourceUnsubscriber

/-- What the program does. -/
inductive LoopOp where
  /-- `g_timeout_add` and the like -/
  | add
  /-- the callback of a source runs, and tells whether the source stays -/
  | dispatch (tag : Nat) (continues : Bool)
  /-- the client calls `g_source_remove`, be it for a source of its own, for that of a
  manager, or for one that is gone -/
  | remove (tag : Nat)
  /-- an operation on managers -/
  | manager (op : Op Nat GSourceUnsubscriber)
deriving DecidableEq, Repr

/-- `g_source_manager(id)` -/
def gSourceManager (id : Nat) : LoopOp := .manager (.ofResource id ())

namespace Loop

/-- Before there is any manager, over some state of the context. -/
def initial {C : Type} (c : C) : Loop C := ⟨c, [], [], World.empty⟩

section Model

variable {C : Type} (G : GSources C)

/-- The source is attached. -/
def Attached (s : Loop C) (tag : Nat) : Prop := G.hasSource s.context tag = true

instance (s : Loop C) (tag : Nat) : Decidable (s.Attached G tag) :=
  inferInstanceAs (Decidable (_ = _))

/-- `g_source_remove`. If it finds no source, the tag is recorded as missed, where GLib
would print a warning. -/
def gSourceRemove (s : Loop C) (tag : Nat) : Loop C :=
  let (context, found) := G.sourceRemove s.context tag
  { s with context := context, missed := if found then s.missed else tag :: s.missed }

/-- `operator()` of `GSourceUnsubscriber`. The tag 0 is left alone. -/
def unsubscribe (s : Loop C) (c : DeleterCall Nat GSourceUnsubscriber) : Loop C :=
  if c.resource ≠ 0 then s.gSourceRemove G c.resource else s

/-- One operation; `none` if it is not possible. The main loop dispatches only what is
attached; the client may remove whatever it likes. -/
def step (s : Loop C) : LoopOp → Option (Loop C)
  | .add =>
    let (context, tag) := G.addSource s.context
    some { s with context := context, loose := tag :: s.loose }
  | .dispatch tag continues =>
    if s.Attached G tag then
      some { s with
        context := G.dispatch s.context tag continues
        loose := if continues then s.loose else s.loose.erase tag }
    else none
  | .remove tag => some ({ s with loose := s.loose.erase tag }.gSourceRemove G tag)
  | .manager op => (s.managers.apply false op).map fun (w, _) =>
    let t := { s with managers := w, loose := op.looseAfter s.managers s.loose }
    (World.callsSince s.managers w).foldl (unsubscribe G) t

/-! ## What is promised -/

/-- **What is promised.** The source that a manager holds is attached; a source has one
owner at most, and one at least while it is attached; and no source was removed that was
not there. Tags may be given out again, so the last part matters. -/
structure Owned (s : Loop C) : Prop where
  held : ∀ tag ∈ s.managers.heldNumbers, tag ≠ 0 → s.Attached G tag
  once : s.managers.OneOwner s.loose
  complete : ∀ tag, s.Attached G tag → tag ∈ s.managers.heldNumbers ∨ tag ∈ s.loose
  none_missed : s.missed = []

/-- What is handed to a manager is a source of the client's, or 0; and only the client's
sources end by themselves or are removed by the client. A callback of a managed source must
not return `G_SOURCE_REMOVE`. -/
def Proper (s : Loop C) : LoopOp → Prop
  | .manager op => ∀ tag ∈ op.given s.managers, tag ≠ 0 → tag ∈ s.loose
  | .dispatch tag false | .remove tag => tag ∈ s.loose
  | .add | .dispatch _ true => True

instance (s : Loop C) (op : LoopOp) : Decidable (s.Proper op) := by
  unfold Proper
  split <;> infer_instance

/-- The invariant of a run whose steps are proper: what is loose is attached, too. -/
structure Inv (s : Loop C) : Prop extends Owned G s where
  loose : ∀ tag ∈ s.loose, s.Attached G tag

end Model

/-! ## One step: sources -/

section Sources

variable {C : Type} {G : GSources C} {s t : Loop C} {tag k : Nat}

/-- What a manager holds is not the client's to remove as well. -/
theorem Inv.count_loose (h : s.Inv G) (hk : k ∈ s.managers.heldNumbers) (hne : k ≠ 0) :
    k ∉ s.loose := by
  have honce := h.once k hne
  have hheld := Multiset.count_pos.mpr hk
  exact List.count_eq_zero.mp (by omega)

variable (hG : G.Laws)

include hG

theorem Attached.ne_zero (h : s.Attached G tag) : tag ≠ 0 := by
  rintro rfl
  rw [Attached, hG.hasSource_zero] at h
  cases h

/-- A new source is the client's. Its tag is nobody else's, as it was not attached
before. -/
theorem Inv.add (h : s.Inv G) (hstep : s.step G .add = some t) : t.Inv G := by
  obtain rfl := Option.some.inj hstep
  have hfresh : ¬ s.Attached G (G.addSource s.context).2 := by
    rw [Attached, hG.addSource_fresh]
    exact Bool.false_ne_true
  have hattached : ∀ k, G.hasSource (G.addSource s.context).1 k = true ↔
      k = (G.addSource s.context).2 ∨ s.Attached G k := hG.hasSource_addSource s.context
  refine { held := ?_, once := ?_, complete := ?_, none_missed := h.none_missed, loose := ?_ }
  · exact fun k hk hne => (hattached k).mpr (.inr (h.held k hk hne))
  · intro k hne
    have honce := h.once k hne
    show s.managers.heldNumbers.count k + ((G.addSource s.context).2 :: s.loose).count k ≤ 1
    by_cases heq : (G.addSource s.context).2 = k
    · have hheld : s.managers.heldNumbers.count k = 0 :=
        Multiset.count_eq_zero.mpr fun hmem => hfresh (heq ▸ h.held k hmem hne)
      have hloose : s.loose.count k = 0 :=
        List.count_eq_zero.mpr fun hmem => hfresh (heq ▸ h.loose k hmem)
      rw [heq, List.count_cons_self, hheld, hloose]
    · rw [List.count_cons_of_ne heq]
      exact honce
  · intro k hk
    rcases (hattached k).mp hk with rfl | hk
    · exact .inr List.mem_cons_self
    · exact (h.complete k hk).imp_right (List.mem_cons_of_mem _)
  · intro k hk
    exact (hattached k).mpr ((List.mem_cons.mp hk).imp_right (h.loose k))

/-- A source of the client's goes, one way or the other. The managers' sources stay
attached. -/
theorem Inv.drop (h : s.Inv G) (htag : tag ∈ s.loose) {context : C}
    (hcontext : ∀ k, G.hasSource context k = true ↔ s.Attached G k ∧ k ≠ tag) :
    Inv G { s with context := context, loose := s.loose.erase tag } := by
  refine { held := ?_, once := ?_, complete := ?_, none_missed := h.none_missed, loose := ?_ }
  · intro k hk hne
    refine (hcontext k).mpr ⟨h.held k hk hne, ?_⟩
    rintro rfl
    exact h.count_loose hk hne htag
  · intro k hne
    exact (Nat.add_le_add_left (List.erase_sublist.count_le k) _).trans (h.once k hne)
  · intro k hk
    obtain ⟨hold, hne⟩ := (hcontext k).mp hk
    exact (h.complete k hold).imp_right (List.mem_erase_of_ne hne).mpr
  · intro k hk
    have hattached := h.loose k (List.mem_of_mem_erase hk)
    have honce := h.once k (hattached.ne_zero hG)
    refine (hcontext k).mpr ⟨hattached, ?_⟩
    rintro rfl
    have hpos := List.count_pos_iff.mpr hk
    rw [List.count_erase_self] at hpos
    omega

/-- A source goes on, or it ends and was the client's. -/
theorem Inv.dispatch {continues : Bool} (h : s.Inv G)
    (hstep : s.step G (.dispatch tag continues) = some t)
    (hproper : s.Proper (.dispatch tag continues)) : t.Inv G := by
  simp only [step] at hstep
  split at hstep
  · rename_i htag
    obtain rfl := Option.some.inj hstep
    cases continues with
    | true =>
      have hsame : ∀ k, G.hasSource (G.dispatch s.context tag true) k = true ↔ s.Attached G k :=
        fun k => by rw [hG.hasSource_continue _ _ _ htag, Attached]
      exact { held := fun k hk hne => (hsame k).mpr (h.held k hk hne)
              once := h.once
              complete := fun k hk => h.complete k ((hsame k).mp hk)
              none_missed := h.none_missed
              loose := fun k hk => (hsame k).mpr (h.loose k hk) }
    | false => exact h.drop hG hproper fun k => hG.hasSource_end _ _ _ htag
  · cases hstep

/-- What `g_source_remove` leaves, and that it tells whether the source was there. -/
theorem gSourceRemove_eq (s : Loop C) (tag : Nat) :
    ∃ context missed, s.gSourceRemove G tag = { s with context := context, missed := missed } ∧
      (∀ k, G.hasSource context k = true ↔ s.Attached G k ∧ k ≠ tag) ∧
      (missed = s.missed ↔ s.Attached G tag) := by
  refine ⟨_, _, rfl, fun k => hG.hasSource_sourceRemove s.context tag k, ?_⟩
  rw [hG.sourceRemove_found, Attached]
  split
  · rename_i hfound
    exact iff_of_true rfl hfound
  · rename_i hfound
    exact iff_of_false (List.cons_ne_self tag s.missed) hfound

/-- The client removes a source of its own. -/
theorem Inv.remove (h : s.Inv G) (hstep : s.step G (.remove tag) = some t)
    (hproper : s.Proper (.remove tag)) : t.Inv G := by
  obtain rfl := Option.some.inj hstep
  obtain ⟨context, missed, heq, hcontext, hmissed⟩ :=
    gSourceRemove_eq hG { s with loose := s.loose.erase tag } tag
  obtain rfl := hmissed.mpr (h.loose tag hproper)
  rw [heq]
  exact h.drop hG hproper hcontext

end Sources

/-! ## One step: managers -/

section Managers

variable {C : Type} {G : GSources C} (hG : G.Laws) {s t : Loop C} {op : Op Nat GSourceUnsubscriber}

include hG in
/-- What is disposed of is attached no longer. -/
theorem unsubscribe_pending (s : Loop C) (c : Option (DeleterCall Nat GSourceUnsubscriber)) :
    ∃ context missed,
      c.toList.foldl (unsubscribe G) s = { s with context := context, missed := missed } ∧
      (∀ k, G.hasSource context k = true ↔ s.Attached G k ∧ k ∉ World.disposed c) ∧
      ((∀ k ∈ World.disposed c, k ≠ 0 → s.Attached G k) → missed = s.missed) := by
  cases c with
  | none =>
    exact ⟨_, _, rfl, fun k => by simp [World.disposed, pendingPair, Attached], fun _ => rfl⟩
  | some c =>
    have hdisposed : ∀ k, k ∈ World.disposed (some c) ↔ k = c.resource := by
      intro k
      simp [World.disposed, pendingPair, DeleterCall.pair]
    by_cases hzero : c.resource = 0
    · refine ⟨_, _, if_neg (not_not.mpr hzero), fun k => ?_, fun _ => rfl⟩
      rw [hdisposed, hzero]
      exact ⟨fun hk => ⟨hk, Attached.ne_zero hG hk⟩, And.left⟩
    · obtain ⟨context, missed, heq, hcontext, hmissed⟩ := gSourceRemove_eq hG s c.resource
      refine ⟨context, missed, (if_pos hzero).trans heq, fun k => ?_, fun h => ?_⟩
      · rw [hdisposed, hcontext]
      · exact hmissed.mpr (h c.resource ((hdisposed _).mpr rfl) hzero)

/-- What an operation on managers does: `c` is the call that it makes. -/
structure Manages (G : GSources C) (s t : Loop C) (op : Op Nat GSourceUnsubscriber)
    (c : Option (DeleterCall Nat GSourceUnsubscriber)) : Prop where
  applied : ∃ o, s.managers.apply false op = some (t.managers, o)
  calls : t.managers.calls = s.managers.calls ++ c.toList
  loose : t.loose = op.looseAfter s.managers s.loose
  attached : ∀ k, t.Attached G k ↔ s.Attached G k ∧ k ∉ World.disposed c
  missed : (∀ k ∈ World.disposed c, k ≠ 0 → s.Attached G k) → t.missed = s.missed

include hG in
theorem manages_of_step (hstep : s.step G (.manager op) = some t) : ∃ c, Manages G s t op c := by
  obtain ⟨⟨w, o⟩, happly, rfl⟩ := Option.map_eq_some_iff.mp hstep
  obtain ⟨-, c, hcalls⟩ := World.apply_effect happly
  obtain ⟨context, missed, heq, hcontext, hmissed⟩ := unsubscribe_pending hG
    { s with managers := w, loose := op.looseAfter s.managers s.loose } c
  refine ⟨c, ?_⟩
  dsimp only
  rw [World.callsSince_eq hcalls, heq]
  exact ⟨⟨o, happly⟩, hcalls, rfl, hcontext, hmissed⟩

variable {c : Option (DeleterCall Nat GSourceUnsubscriber)}

/-- What an operation deals with was attached. -/
theorem Manages.attached_of_count (hm : Manages G s t op c) (h : s.Inv G)
    (hproper : s.Proper (.manager op)) {k : Nat} (hne : k ≠ 0)
    (hk : 0 < t.managers.heldNumbers.count k + (World.disposed c).count k
      + (op.taken s.managers).count k) : s.Attached G k := by
  obtain ⟨o, happly⟩ := hm.applied
  rw [World.count_numbers happly hm.calls k] at hk
  by_cases hheld : k ∈ s.managers.heldNumbers
  · exact h.held k hheld hne
  · rw [Multiset.count_eq_zero.mpr hheld, Nat.zero_add] at hk
    exact h.loose k (hproper k (List.count_pos_iff.mp hk) hne)

/-- What is held, loose or disposed of was held or loose, and as often. -/
theorem Manages.custody (hm : Manages G s t op c) (hproper : s.Proper (.manager op)) {k : Nat}
    (hne : k ≠ 0) :
    t.managers.heldNumbers.count k + t.loose.count k + (World.disposed c).count k
      = s.managers.heldNumbers.count k + s.loose.count k := by
  obtain ⟨o, happly⟩ := hm.applied
  rw [hm.loose]
  exact World.custody_count happly hm.calls hproper hne

/-- What somebody still has is not disposed of, since nobody else had it. -/
theorem Manages.kept (hm : Manages G s t op c) (h : s.Inv G) (hproper : s.Proper (.manager op))
    {k : Nat} (hne : k ≠ 0) (hk : s.Attached G k)
    (hpos : 0 < t.managers.heldNumbers.count k + t.loose.count k) : t.Attached G k := by
  refine (hm.attached k).mpr ⟨hk, fun hdisposed => ?_⟩
  have hgone : 0 < (World.disposed c).count k := Multiset.count_pos.mpr hdisposed
  have hbalance := hm.custody hproper hne
  have honce := h.once k hne
  omega

include hG in
/-- An operation on managers keeps what is promised. This is where the balance of the
resources comes in: what is disposed of was held or handed in. -/
theorem Inv.manager (h : s.Inv G) (hstep : s.step G (.manager op) = some t)
    (hproper : s.Proper (.manager op)) : t.Inv G := by
  obtain ⟨c, hm⟩ := manages_of_step hG hstep
  have hdealt : ∀ {k}, k ≠ 0 → 0 < t.managers.heldNumbers.count k + (World.disposed c).count k
      + (op.taken s.managers).count k → s.Attached G k :=
    fun hne hk => hm.attached_of_count h hproper hne hk
  refine { held := ?_, once := ?_, complete := ?_, none_missed := ?_, loose := ?_ }
  · intro k hk hne
    have hpos := Multiset.count_pos.mpr hk
    exact hm.kept h hproper hne (hdealt hne (by omega)) (by omega)
  · intro k hne
    have hbalance := hm.custody hproper hne
    have honce := h.once k hne
    omega
  · intro k hk
    obtain ⟨hk, hstays⟩ := (hm.attached k).mp hk
    have hbalance := hm.custody hproper (hk.ne_zero hG)
    have hzero : (World.disposed c).count k = 0 := Multiset.count_eq_zero.mpr hstays
    rw [← Multiset.count_pos, ← List.count_pos_iff]
    rcases h.complete k hk with hheld | hloose
    · have hpos := Multiset.count_pos.mpr hheld
      omega
    · have hpos := List.count_pos_iff.mpr hloose
      omega
  · refine (hm.missed fun k hk hne => hdealt hne ?_).trans h.none_missed
    have hpos := Multiset.count_pos.mpr hk
    omega
  · intro k hk
    have hpos : 0 < t.loose.count k := List.count_pos_iff.mpr hk
    rw [hm.loose, Op.looseAfter, List.mem_append] at hk
    rcases hk with hk | hk
    · have hold := h.loose k (List.diff_subset _ _ hk)
      exact hm.kept h hproper (hold.ne_zero hG) hold (by omega)
    · obtain ⟨htaken, hne⟩ := List.mem_filter.mp hk
      have hne : k ≠ 0 := by simpa using hne
      have hcount := List.count_pos_iff.mpr htaken
      exact hm.kept h hproper hne (hdealt hne (by omega)) (by omega)

/-! ## Exactness -/

include hG

/-- If all is well afterwards, then what was handed in was the client's. -/
theorem Inv.proper_manager (h : s.Inv G) (hstep : s.step G (.manager op) = some t)
    (ht : t.Owned G) : s.Proper (.manager op) := by
  obtain ⟨c, hm⟩ := manages_of_step hG hstep
  obtain ⟨o, happly⟩ := hm.applied
  intro k hk hne
  obtain ⟨x, hx, rfl⟩ := List.mem_map.mp hk
  have hheld' := World.count_held_pos (World.mem_heldPairs_of_handsIn happly hx)
  have hattached := (hm.attached _).mp (ht.held _ (Multiset.count_pos.mp hheld') hne)
  rcases h.complete _ hattached.1 with hheld | hloose
  · -- the tag would be held twice, or its source is removed already
    have honce := ht.once _ hne
    rw [hm.loose, World.count_looseAfter s.managers s.loose op hne] at honce
    have hkept : (World.disposed c).count x.1 = 0 := Multiset.count_eq_zero.mpr hattached.2
    have hcount := World.count_numbers happly hm.calls x.1
    have hpos := Multiset.count_pos.mpr hheld
    have hgiven := List.count_pos_iff.mpr hk
    omega
  · exact hloose

/-- A source that is gone afterwards, and was there, was no manager's. -/
theorem Inv.loose_of_gone (h : s.Inv G) {tag : Nat} (htag : s.Attached G tag)
    (ht : t.Owned G) (hmanagers : t.managers = s.managers) (hgone : ¬ t.Attached G tag) :
    tag ∈ s.loose := by
  refine (h.complete tag htag).resolve_left fun hheld => hgone ?_
  exact ht.held tag (hmanagers ▸ hheld) (htag.ne_zero hG)

/-- If all is well afterwards, then the source that ended was the client's. -/
theorem Inv.proper_dispatch {tag : Nat} (h : s.Inv G)
    (hstep : s.step G (.dispatch tag false) = some t) (ht : t.Owned G) : tag ∈ s.loose := by
  simp only [step] at hstep
  split at hstep
  · rename_i htag
    obtain rfl := Option.some.inj hstep
    exact h.loose_of_gone hG htag ht rfl fun hk => ((hG.hasSource_end _ _ _ htag).mp hk).2 rfl
  · cases hstep

/-- And so was the source that the client removed: GLib would have printed a warning, or
a manager would be left with the tag. -/
theorem Inv.proper_remove {tag : Nat} (h : s.Inv G) (hstep : s.step G (.remove tag) = some t)
    (ht : t.Owned G) : tag ∈ s.loose := by
  obtain rfl := Option.some.inj hstep
  obtain ⟨context, missed, heq, hcontext, hmissed⟩ :=
    gSourceRemove_eq hG { s with loose := s.loose.erase tag } tag
  rw [heq] at ht
  have htag : s.Attached G tag := hmissed.mp (ht.none_missed.trans h.none_missed.symm)
  exact h.loose_of_gone hG htag ht rfl fun hk => ((hcontext tag).mp hk).2 rfl

end Managers

/-! ## Runs -/

section Runs

variable {C : Type} {G : GSources C} (hG : G.Laws)

theorem inv_initial {c : C} (hc : ∀ tag, G.hasSource c tag = false) : (initial c).Inv G where
  loose _ htag := nomatch htag
  held _ htag _ := nomatch htag
  once _ _ := Nat.zero_le 1
  complete tag htag := nomatch (hc tag).symm.trans htag
  none_missed := rfl

include hG in
/-- One step keeps what is promised, if it is proper. -/
theorem Inv.step {s t : Loop C} {op : LoopOp} (h : s.Inv G) (hstep : s.step G op = some t)
    (hproper : s.Proper op) : t.Inv G := by
  cases op with
  | add => exact h.add hG hstep
  | dispatch tag continues => exact h.dispatch hG hstep hproper
  | remove tag => exact h.remove hG hstep hproper
  | manager op => exact h.manager hG hstep hproper

include hG in
/-- **Managers own their sources** in a run exactly if they are handed sources of the
client's, and no source ends or is removed by the client while a manager holds it. -/
theorem managed_iff_owned {c : C} (hc : ∀ tag, G.hasSource c tag = false) (ops : List LoopOp) :
    Always (step G) (Owned G) (initial c) ops ↔ Meets (step G) Proper (initial c) ops := by
  refine always_iff_meets (fun s op t h hstep hproper => h.step hG hstep hproper)
    (fun s h => h.toOwned) (fun s op t h hstep ht => ?_) (inv_initial hc)
  cases op with
  | add => trivial
  | manager op => exact h.proper_manager hG hstep ht
  | dispatch tag continues =>
    cases continues with
    | false => exact h.proper_dispatch hG hstep ht
    | true => trivial
  | remove tag => exact h.proper_remove hG hstep ht

/-- Two timers, of which a manager gets the first. The client may remove the second and
destroy the manager, but not remove the source of the manager. -/
theorem managed_iff_owned_timers :
    Always (step countingSources) (Owned countingSources) (initial .empty)
        [.add, .add, gSourceManager 1, .remove 2, .manager (.destroy 0)] ∧
      ¬ Always (step countingSources) (Owned countingSources) (initial .empty)
        [.add, .add, gSourceManager 1, .remove 1] :=
  ⟨(managed_iff_owned countingSources_laws (fun _ => rfl) _).mpr (by decide),
    fun h => absurd ((managed_iff_owned countingSources_laws (fun _ => rfl) _).mp h) (by decide)⟩

end Runs

end Loop

end LomiriApi
