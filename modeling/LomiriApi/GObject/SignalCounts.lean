import LomiriApi.GObject.Signals

/-!
# The reference counts of objects with signal connections

A reference to an object is owned by C code, or by a control block that has copies left:
those of the client's, and those of the unsubscribers in connections.

- `SignalWorld.InHand G s p`: the reference counts of `s` are right, and one more
  reference, to `p`, is on its way from one owner to another.
- `InHand.dropCopy`: the rule for the end of a copy of a shared pointer.
- `InHand.alive`: an object lives exactly as long as somebody has a reference to it.
-/

namespace LomiriApi

open Lib

namespace World

variable {R D : Type}

/-- The deleter of an object is one of the copies. -/
theorem le_deleters_of_get (f : D → Nat) {w : World R D} {i : Nat} {p : ResourcePtr R D}
    (h : w.get i = some p) : f p.delete_ ≤ w.deleters f := by
  have hremove := deleters_remove f h
  omega

/-- What is held is held by an object. -/
theorem exists_of_mem_heldPairs {w : World R D} {x : R × D} (hx : x ∈ w.heldPairs) :
    ∃ i p, w.get i = some p ∧ p.delete_ = x.2 := by
  obtain ⟨objs, calls⟩ := w
  change x ∈ total slotPair objs at hx
  induction objs with
  | nil => cases hx
  | cons o objs ih =>
    rw [total_cons] at hx
    rcases Multiset.mem_add.mp hx with hhead | htail
    · cases o with
      | none => cases hhead
      | some p =>
        change x ∈ p.pair at hhead
        unfold ResourcePtr.pair at hhead
        split at hhead
        · obtain rfl := Multiset.mem_singleton.mp hhead
          exact ⟨0, p, rfl, rfl⟩
        · cases hhead
    · obtain ⟨i, p, hi, hp⟩ := ih htail
      exact ⟨i + 1, p, hi, hp⟩

theorem le_deleters_of_mem_heldPairs (f : D → Nat) {w : World R D} {x : R × D}
    (hx : x ∈ w.heldPairs) : f x.2 ≤ w.deleters f := by
  obtain ⟨i, p, hi, hp⟩ := exists_of_mem_heldPairs hx
  exact hp ▸ le_deleters_of_get f hi

end World

namespace SignalWorld

/-- The reference counts are right, with a reference to `p` in hand. It is the invariant in
the middle of an operation, when a reference is on its way. -/
structure InHand {C : Type} (G : GSignals C) (s : SignalWorld C) (p : Option Nat) : Prop where
  refCount : ∀ o, G.refCount s.objects o = s.owners o + refersTo o p
  copies : ∀ g, 0 < s.useCount g → g < s.blocks.length

/-! ## Control blocks -/

section Blocks

variable {C : Type} {s t : SignalWorld C}

theorem mem_liveBlocks {o g : Nat} :
    g ∈ s.liveBlocks o ↔ s.blocks[g]? = some o ∧ 0 < s.useCount g := by
  rw [liveBlocks, Finset.mem_filter, Finset.mem_range]
  constructor
  · exact fun h => h.2
  · exact fun h => ⟨(List.getElem?_eq_some_iff.mp h.1).1, h⟩

/-- The live blocks depend on which pointers have copies left, and not on how many. -/
theorem liveBlocks_congr (hblocks : t.blocks = s.blocks)
    (hlive : ∀ g, 0 < t.useCount g ↔ 0 < s.useCount g) (o : Nat) :
    t.liveBlocks o = s.liveBlocks o := by
  ext g
  rw [mem_liveBlocks, mem_liveBlocks, hblocks, hlive]

/-- The last copy of a pointer goes, and with it one owner of its object. -/
theorem card_liveBlocks_last (hblocks : t.blocks = s.blocks) {g o : Nat}
    (ho : s.blocks[g]? = some o) (hg : 0 < s.useCount g) (hlast : t.useCount g = 0)
    (hlive : ∀ g', g' ≠ g → (0 < t.useCount g' ↔ 0 < s.useCount g')) (k : Nat) :
    (t.liveBlocks k).card + refersTo k (some o) = (s.liveBlocks k).card := by
  have herase : t.liveBlocks k = (s.liveBlocks k).erase g := by
    ext g'
    rw [Finset.mem_erase, mem_liveBlocks, mem_liveBlocks, hblocks]
    by_cases hg' : g' = g
    · subst hg'
      simp [hlast]
    · simp [hg', hlive g' hg']
  rw [herase]
  by_cases hko : k = o
  · subst hko
    rw [refersTo_self, Finset.card_erase_add_one (mem_liveBlocks.mpr ⟨ho, hg⟩)]
  · rw [refersTo_of_ne hko, Finset.erase_eq_of_notMem]
    · rfl
    · intro hgk
      exact hko (Option.some.inj ((mem_liveBlocks.mp hgk).1.symm.trans ho))

/-- A new pointer. -/
theorem card_liveBlocks_new {o : Nat} (hblocks : t.blocks = s.blocks ++ [o])
    (hnew : 0 < t.useCount s.blocks.length)
    (hlive : ∀ g < s.blocks.length, (0 < t.useCount g ↔ 0 < s.useCount g)) (k : Nat) :
    (t.liveBlocks k).card = (s.liveBlocks k).card + refersTo k (some o) := by
  have hfresh : s.blocks.length ∉ s.liveBlocks k := by
    intro hmem
    exact absurd (List.getElem?_eq_some_iff.mp (mem_liveBlocks.mp hmem).1).1 (Nat.lt_irrefl _)
  have hold : ∀ g, g ≠ s.blocks.length → (g ∈ t.liveBlocks k ↔ g ∈ s.liveBlocks k) := by
    intro g hg
    rw [mem_liveBlocks, mem_liveBlocks, hblocks]
    rcases Nat.lt_or_gt_of_ne hg with hlt | hgt
    · rw [List.getElem?_append_left hlt, hlive g hlt]
    · rw [List.getElem?_eq_none (by simp only [List.length_append, List.length_singleton]; omega),
        List.getElem?_eq_none (Nat.le_of_lt hgt)]
      simp
  have hlast : s.blocks.length ∈ t.liveBlocks k ↔ o = k := by
    rw [mem_liveBlocks, hblocks, List.getElem?_concat_length]
    simp [hnew]
  by_cases hko : k = o
  · subst hko
    have hinsert : t.liveBlocks k = insert s.blocks.length (s.liveBlocks k) := by
      ext g
      rw [Finset.mem_insert]
      by_cases hg : g = s.blocks.length
      · subst hg
        simp [hlast]
      · simp [hold g hg, hg]
    rw [hinsert, Finset.card_insert_of_notMem hfresh, refersTo_self]
  · have hsame : t.liveBlocks k = s.liveBlocks k := by
      ext g
      by_cases hg : g = s.blocks.length
      · subst hg
        simp [hlast, hfresh, Ne.symm hko]
      · exact hold g hg
    rw [hsame, refersTo_of_ne hko]
    rfl

end Blocks

/-! ## Reference counts -/

section Counts

variable {C : Type} {G : GSignals C} {s t : SignalWorld C} {p : Option Nat} {o : Nat}

/-- An object with an owner, or with a reference in hand, is there. -/
theorem InHand.isObject (h : s.InHand G p) (hown : 0 < s.owners o + refersTo o p) :
    s.IsObject G o := by
  rw [IsObject, h.refCount]
  exact hown

/-- A shared pointer keeps its object alive. -/
theorem InHand.isObject_target (h : s.InHand G p) {g : Nat} (hg : 0 < s.useCount g)
    (ho : s.blocks[g]? = some o) : s.IsObject G o := by
  have hpos : 0 < (s.liveBlocks o).card :=
    Finset.card_pos.mpr ⟨g, mem_liveBlocks.mpr ⟨ho, hg⟩⟩
  refine h.isObject ?_
  unfold owners
  omega

/-- A reference goes from one owner to another. The sum of both sides stays the same, which
is all that has to be checked of a transfer. -/
theorem InHand.handOver (h : s.InHand G p) {p' : Option Nat}
    (hrefs : ∀ k, G.refCount t.objects k = G.refCount s.objects k)
    (howners : ∀ k, t.owners k + refersTo k p' = s.owners k + refersTo k p)
    (hcopies : ∀ g, 0 < t.useCount g → g < t.blocks.length) : t.InHand G p' where
  refCount k := (hrefs k).trans ((h.refCount k).trans (howners k).symm)
  copies := hcopies

/-- The counts stay right when the same pointers have copies left. -/
theorem InHand.of_same (h : s.InHand G p)
    (hrefs : ∀ k, G.refCount t.objects k = G.refCount s.objects k)
    (hcRefs : t.cRefs = s.cRefs) (hblocks : t.blocks = s.blocks)
    (hlive : ∀ g, 0 < t.useCount g ↔ 0 < s.useCount g) : t.InHand G p := by
  refine h.handOver hrefs (fun k => ?_) fun g hg => ?_
  · rw [owners, owners, hcRefs, liveBlocks_congr hblocks hlive]
  · rw [hblocks]
    exact h.copies g ((hlive g).mp hg)

/-- C code becomes the owner of the reference in hand. -/
theorem InHand.toC (h : s.InHand G (some o)) :
    ({ s with cRefs := o :: s.cRefs }).InHand G none := by
  refine h.handOver (fun _ => rfl) (fun k => ?_) h.copies
  show (o :: s.cRefs).count k + (s.liveBlocks k).card + 0 = s.owners k + refersTo k (some o)
  simp only [owners, List.count_cons, refersTo, beq_iff_eq, Option.some.injEq]
  omega

/-- C code gives a reference away. -/
theorem InHand.fromC (h : s.InHand G none) (ho : o ∈ s.cRefs) :
    ({ s with cRefs := s.cRefs.erase o }).InHand G (some o) := by
  refine h.handOver (fun _ => rfl) (fun k => ?_) h.copies
  show (s.cRefs.erase o).count k + (s.liveBlocks k).card + refersTo k (some o) = s.owners k + 0
  by_cases hk : k = o
  · subst hk
    have hpos : 0 < s.cRefs.count k := List.count_pos_iff.mpr ho
    simp only [owners, List.count_erase_self, refersTo_self]
    omega
  · simp only [owners, List.count_erase_of_ne hk, refersTo_of_ne hk]

section Laws

variable (hG : G.Laws)

include hG

/-- `g_object_unref` releases the reference in hand. -/
theorem InHand.unref (h : s.InHand G (some o)) : (s.gObjectUnref G o).InHand G none where
  refCount k := by
    have hpos : s.IsObject G o := h.isObject (by rw [refersTo_self]; omega)
    show G.refCount (G.objectUnref s.objects o) k = s.owners k + 0
    rw [hG.refCount_objectUnref _ _ _ hpos, h.refCount]
    omega
  copies := h.copies

/-- A new object comes with one reference. -/
theorem InHand.new (h : s.InHand G none) :
    ({ s with objects := (G.objectNew s.objects).1 }).InHand G
      (some (G.objectNew s.objects).2) where
  refCount k := by
    show G.refCount (G.objectNew s.objects).1 k = s.owners k + _
    rw [hG.refCount_objectNew, h.refCount, refersTo_none, Nat.add_zero]
  copies := h.copies

/-- `g_object_ref` -/
theorem InHand.ref (h : s.InHand G none) (ho : s.IsObject G o) :
    ({ s with objects := G.objectRef s.objects o }).InHand G (some o) where
  refCount k := by
    show G.refCount (G.objectRef s.objects o) k = s.owners k + _
    rw [hG.refCount_objectRef _ _ _ ho, h.refCount, refersTo_none, Nat.add_zero]
  copies := h.copies

/-- Dropping a copy finalises objects at most: they lose their handlers. -/
theorem dropCopy_eq (s : SignalWorld C) (p : Option Nat) :
    ∃ objects, s.dropCopy G p = { s with objects := objects } ∧
      ∀ o h, G.isConnected objects o h = true ↔ s.Connected G o h ∧ 0 < G.refCount objects o := by
  have hsame : ∃ objects, s = { s with objects := objects } ∧ ∀ o h,
      G.isConnected objects o h = true ↔ s.Connected G o h ∧ 0 < G.refCount objects o :=
    ⟨_, rfl, fun o h => ⟨fun hc => ⟨hc, (hG.connected _ _ _ hc).1⟩, And.left⟩⟩
  cases p with
  | none => exact hsame
  | some g =>
    unfold dropCopy
    dsimp only
    split
    · split
      · unfold gobjectDeleter
        split
        · rename_i hobj
          exact ⟨_, rfl, fun o h => hG.isConnected_objectUnref _ _ o h hobj⟩
        · exact hsame
      · exact hsame
    · exact hsame

end Laws

/-- The copies when a pointer `p` is added. -/
theorem useCount_append (s : SignalWorld C) (g : Nat) (p : Option Nat) :
    total (refersTo g) (s.ptrs ++ [p]) + s.conns.deleters (refersTo g)
      = s.useCount g + refersTo g p := by
  rw [total_append, total_cons, total_nil, useCount]
  omega

theorem useCount_pos_of_mem {g : Nat} (h : some g ∈ s.ptrs) : 0 < s.useCount g := by
  obtain ⟨rest, hrest⟩ := total_eq_add_of_mem (refersTo g) h
  rw [useCount, hrest, refersTo_self]
  omega

/-- `share_gobject` makes the first copy of a new pointer. -/
theorem useCount_share (s : SignalWorld C) (o g : Nat) :
    (s.shareGobject o).useCount g = s.useCount g + refersTo g (some s.blocks.length) :=
  s.useCount_append g _

/-- A new pointer is the owner of a reference. -/
theorem card_liveBlocks_share (s : SignalWorld C) (o k : Nat) :
    ((s.shareGobject o).liveBlocks k).card = (s.liveBlocks k).card + refersTo k (some o) := by
  refine card_liveBlocks_new rfl ?_ (fun g hg => ?_) k
  · rw [useCount_share, refersTo_self]
    omega
  · rw [useCount_share, refersTo_of_ne (Nat.ne_of_lt hg), Nat.add_zero]

/-- `share_gobject` takes over the reference in hand. -/
theorem InHand.share (h : s.InHand G (some o)) : (s.shareGobject o).InHand G none := by
  refine h.handOver (fun _ => rfl) (fun k => ?_) fun g hg => ?_
  · show s.cRefs.count k + _ + 0 = s.cRefs.count k + _ + _
    rw [card_liveBlocks_share]
    omega
  · rw [useCount_share] at hg
    show g < (s.blocks ++ [o]).length
    rw [List.length_append, List.length_singleton]
    by_cases hne : g = s.blocks.length
    · omega
    · rw [refersTo_of_ne hne] at hg
      exact Nat.lt_succ_of_lt (h.copies g hg)

/-- **The rule for shared pointers**: a copy of `p` goes, and for every other pointer there
are copies left exactly if there were. -/
theorem InHand.dropCopy (hG : G.Laws) (h : s.InHand G none)
    (hrefs : ∀ k, G.refCount t.objects k = G.refCount s.objects k)
    (hcRefs : t.cRefs = s.cRefs) (hblocks : t.blocks = s.blocks)
    (hlive : ∀ g, p ≠ some g → (0 < t.useCount g ↔ 0 < s.useCount g))
    (hp : ∀ g, p = some g → 0 < s.useCount g) : (t.dropCopy G p).InHand G none := by
  cases p with
  | none => exact h.of_same hrefs hcRefs hblocks fun g => hlive g (Option.some_ne_none g).symm
  | some g =>
    have hg := hp g rfl
    have hother : ∀ g', g' ≠ g → (0 < t.useCount g' ↔ 0 < s.useCount g') :=
      fun g' hne => hlive g' fun heq => hne (Option.some.inj heq).symm
    obtain ⟨o, ho⟩ : ∃ o, s.blocks[g]? = some o :=
      ⟨_, List.getElem?_eq_getElem (h.copies g hg)⟩
    unfold SignalWorld.dropCopy
    dsimp only
    by_cases hlast : t.useCount g = 0
    · have hobj : t.IsObject G o := by
        rw [IsObject, hrefs]
        exact h.isObject_target hg ho
      have hhand : t.InHand G (some o) := by
        refine h.handOver hrefs (fun k => ?_) fun g' hg' => ?_
        · have hcard := card_liveBlocks_last hblocks ho hg hlast hother k
          rw [owners, owners, hcRefs, refersTo_none]
          omega
        · have hne : g' ≠ g := by
            rintro rfl
            omega
          rw [hblocks]
          exact h.copies g' ((hother g' hne).mp hg')
      rw [if_pos hlast, hblocks, ho]
      dsimp only
      rw [gobjectDeleter, if_pos hobj]
      exact hhand.unref hG
    · rw [if_neg hlast]
      refine h.of_same hrefs hcRefs hblocks fun g' => ?_
      by_cases hne : g' = g
      · subst hne
        exact ⟨fun _ => hg, fun _ => Nat.pos_of_ne_zero hlast⟩
      · exact hother g' hne

/-- An object lives exactly as long as C code or a live pointer has a reference to it. -/
theorem InHand.alive (h : s.InHand G none) (o : Nat) :
    s.IsObject G o ↔ o ∈ s.cRefs ∨ ∃ g, s.blocks[g]? = some o ∧ 0 < s.useCount g := by
  rw [IsObject, h.refCount, refersTo_none, Nat.add_zero, owners, Nat.add_pos_iff_pos_or_pos,
    List.count_pos_iff, Finset.card_pos]
  exact or_congr_right (exists_congr fun g => mem_liveBlocks)

/-- An unsubscriber that a connection has keeps its object alive. -/
theorem InHand.isObject_held (h : s.InHand G none) {x : Nat × Unsubscriber}
    (hx : x ∈ s.conns.heldPairs) {o : Nat} (ho : s.target x.2 = some o) :
    s.IsObject G o := by
  obtain ⟨g, hg, hblock⟩ := Option.bind_eq_some_iff.mp ho
  have hle := World.le_deleters_of_mem_heldPairs (refersTo g) hx
  rw [hg, refersTo_self] at hle
  refine h.isObject_target ?_ hblock
  unfold useCount
  omega

end Counts

end SignalWorld

end LomiriApi
