import LomiriApi.GObject.Signals

/-!
# Objects that count their handlers

A small object system, in which objects get addresses and handlers get numbers one after
the other, and the functions of GLib on it. The laws hold of it: `countingSignals_laws`.
-/

namespace LomiriApi

/-- The objects and their handlers. Below `next` are the addresses that were given out, and
up to `lastId` the numbers; so a new one is free without a search. -/
structure CountingObjects where
  refCount : Nat → Nat
  /-- the next address -/
  next : Nat
  fresh : ∀ o, next ≤ o → refCount o = 0
  handlers : List (Nat × Nat)
  lastId : Nat
  handler : ∀ x ∈ handlers, 0 < refCount x.1 ∧ 0 < x.2 ∧ x.2 ≤ lastId
  unique : ∀ x ∈ handlers, ∀ y ∈ handlers, x.2 = y.2 → x.1 = y.1

namespace CountingObjects

def empty : CountingObjects :=
  ⟨fun _ => 0, 0, fun _ _ => rfl, [], 0, List.forall_mem_nil _, List.forall_mem_nil _⟩

/-- `g_object_new`. Addresses are not used again here, though the laws admit that. -/
def new (c : CountingObjects) : CountingObjects where
  refCount k := c.refCount k + refersTo k (some c.next)
  next := c.next + 1
  fresh o ho := by
    rw [c.fresh o (Nat.le_of_succ_le ho), refersTo_of_ne (by omega)]
  handlers := c.handlers
  lastId := c.lastId
  handler x hx := ⟨Nat.add_pos_left (c.handler x hx).1 _, (c.handler x hx).2⟩
  unique := c.unique

/-- `g_object_ref` -/
def ref (c : CountingObjects) (o : Nat) : CountingObjects where
  refCount k := if 0 < c.refCount o then c.refCount k + refersTo k (some o) else c.refCount k
  next := c.next
  fresh k hk := by
    split
    · rename_i ho
      have hne : k ≠ o := by
        rintro rfl
        exact Nat.ne_of_gt ho (c.fresh k hk)
      rw [c.fresh k hk, refersTo_of_ne hne]
    · exact c.fresh k hk
  handlers := c.handlers
  lastId := c.lastId
  handler x hx := by
    refine ⟨?_, (c.handler x hx).2⟩
    have hpos := (c.handler x hx).1
    split <;> omega
  unique := c.unique

/-- `g_object_unref`; the handlers of an object that is finalised go with it. -/
def unref (c : CountingObjects) (o : Nat) : CountingObjects where
  refCount k := c.refCount k - refersTo k (some o)
  next := c.next
  fresh k hk := by rw [c.fresh k hk, Nat.zero_sub]
  handlers := c.handlers.filter fun x => 0 < c.refCount x.1 - refersTo x.1 (some o)
  lastId := c.lastId
  handler x hx := by
    obtain ⟨hx, hpos⟩ := List.mem_filter.mp hx
    exact ⟨of_decide_eq_true hpos, (c.handler x hx).2⟩
  unique x hx y hy := c.unique x (List.mem_of_mem_filter hx) y (List.mem_of_mem_filter hy)

/-- `g_signal_connect`, at an object. The number of the handler has not been used
before. -/
def connect (c : CountingObjects) (o : Nat) (ho : 0 < c.refCount o) : CountingObjects where
  refCount := c.refCount
  next := c.next
  fresh := c.fresh
  handlers := (o, c.lastId + 1) :: c.handlers
  lastId := c.lastId + 1
  handler := List.forall_mem_cons.mpr ⟨⟨ho, Nat.succ_pos _, Nat.le_refl _⟩, fun x hx =>
    have h := c.handler x hx
    ⟨h.1, h.2.1, Nat.le_succ_of_le h.2.2⟩⟩
  unique x hx y hy heq := by
    have hle : ∀ z ∈ c.handlers, z.2 ≤ c.lastId := fun z hz => (c.handler z hz).2.2
    rcases List.mem_cons.mp hx with rfl | hx
    · rcases List.mem_cons.mp hy with rfl | hy
      · rfl
      · have := hle y hy
        omega
    · rcases List.mem_cons.mp hy with rfl | hy
      · have := hle x hx
        omega
      · exact c.unique x hx y hy heq

/-- `g_signal_handler_disconnect` -/
def disconnect (c : CountingObjects) (o h : Nat) : CountingObjects where
  refCount := c.refCount
  next := c.next
  fresh := c.fresh
  handlers := c.handlers.filter (· ≠ (o, h))
  lastId := c.lastId
  handler x hx := c.handler x (List.mem_of_mem_filter hx)
  unique x hx y hy := c.unique x (List.mem_of_mem_filter hx) y (List.mem_of_mem_filter hy)

end CountingObjects

/-- The only signal that there is not is the empty one. -/
def countingSignals : GSignals CountingObjects where
  refCount := CountingObjects.refCount
  isConnected c o h := decide ((o, h) ∈ c.handlers)
  objectNew c := (c.new, c.next)
  objectRef := CountingObjects.ref
  objectUnref := CountingObjects.unref
  signalConnect c o signal :=
    if h : 0 < c.refCount o ∧ signal ≠ [] then (c.connect o h.1, c.lastId + 1) else (c, 0)
  handlerDisconnect := CountingObjects.disconnect

theorem mem_handlers_of_isConnected {c : CountingObjects} {o h : Nat} :
    countingSignals.isConnected c o h = true ↔ (o, h) ∈ c.handlers := decide_eq_true_iff

/-- The laws hold of this GLib, so the theorem on connections is about something. -/
theorem countingSignals_laws : countingSignals.Laws where
  connected c o h hc := by
    have hvalid := c.handler _ (mem_handlers_of_isConnected.mp hc)
    exact ⟨hvalid.1, hvalid.2.1⟩
  unique c o o' h hc hc' := c.unique _ (mem_handlers_of_isConnected.mp hc) _
    (mem_handlers_of_isConnected.mp hc') rfl
  objectNew_fresh c := c.fresh _ (Nat.le_refl _)
  refCount_objectNew _ _ := rfl
  isConnected_objectNew _ _ _ := rfl
  refCount_objectRef _ _ _ ho := if_pos ho
  isConnected_objectRef _ _ _ _ _ := rfl
  refCount_objectUnref _ _ _ _ := rfl
  isConnected_objectUnref c o k h _ := by
    rw [mem_handlers_of_isConnected, mem_handlers_of_isConnected]
    exact List.mem_filter.trans (and_congr_right fun _ => decide_eq_true_iff)
  signalConnect_fresh c o signal k _ := by
    have hnot : ∀ h, (h = 0 ∨ c.lastId < h) → countingSignals.isConnected c k h = false := by
      intro h hh
      refine decide_eq_false fun hmem => ?_
      obtain ⟨-, hpos, hle⟩ := c.handler _ hmem
      dsimp only at hpos hle
      omega
    unfold countingSignals
    dsimp only
    split
    · exact hnot _ (.inr (Nat.lt_succ_self _))
    · exact hnot _ (.inl rfl)
  refCount_signalConnect c o signal k _ := by
    unfold countingSignals
    dsimp only
    split <;> rfl
  isConnected_signalConnect c o signal k h ho := by
    rw [mem_handlers_of_isConnected, mem_handlers_of_isConnected]
    unfold countingSignals
    dsimp only
    split
    · simp only [CountingObjects.connect, List.mem_cons, Prod.mk.injEq]
      constructor
      · rintro (⟨rfl, rfl⟩ | hmem)
        · exact .inr ⟨rfl, rfl, Nat.succ_ne_zero _⟩
        · exact .inl hmem
      · rintro (hmem | ⟨rfl, rfl, -⟩)
        · exact .inr hmem
        · exact .inl ⟨rfl, rfl⟩
    · simp
  refCount_handlerDisconnect _ _ _ _ _ := rfl
  isConnected_handlerDisconnect c o h k j _ := by
    rw [mem_handlers_of_isConnected, mem_handlers_of_isConnected]
    exact List.mem_filter.trans (and_congr_right fun _ => decide_eq_true_iff)

end LomiriApi
