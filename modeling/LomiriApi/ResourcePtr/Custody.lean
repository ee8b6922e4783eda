import LomiriApi.ResourcePtr.Deleters

/-!
# Who is to dispose of what

GLib numbers what it hands out, and 0 is what it returns when there is nothing. The client
is to dispose of the thing with such a number, or a `ResourcePtr` is that the number was
handed to.

- `Op.given`, `Op.taken`: the numbers that an operation hands in and out.
- `Op.looseAfter`: what the client has to dispose of itself after an operation, where
  `loose` lists what it had to before.
- `World.OneOwner`: nothing will be disposed of twice.
- `custody_count`: what is held, what is loose and what is disposed of make up what was
  held and what was loose, provided that what is handed in was the client's.
-/

namespace LomiriApi

open Lib

variable {D : Type}

/-- The numbers that an operation hands in. -/
def Op.given (w : World Nat D) (op : Op Nat D) : List Nat := (op.handsIn w).map Prod.fst

/-- The number that an operation hands out. -/
def Op.taken (w : World Nat D) (op : Op Nat D) : List Nat := (op.handsOut w).map Prod.fst

/-- What is the client's to dispose of after an operation: what it has handed in no longer,
what it got back again. The number 0 is never anybody's. -/
def Op.looseAfter (w : World Nat D) (loose : List Nat) (op : Op Nat D) : List Nat :=
  loose.diff (op.given w) ++ (op.taken w).filter (· ≠ 0)

namespace World

/-- The numbers that are held, as often as they are held. -/
def heldNumbers (w : World Nat D) : Multiset Nat := w.heldPairs.map Prod.fst

/-- The number that a call disposes of. -/
def disposed (c : Option (DeleterCall Nat D)) : Multiset Nat := (pendingPair c).map Prod.fst

/-- A thing has one owner at most, a `ResourcePtr` or the client. Two would dispose of it
twice. -/
def OneOwner (w : World Nat D) (loose : List Nat) : Prop :=
  ∀ k, k ≠ 0 → w.heldNumbers.count k + loose.count k ≤ 1

theorem count_held_pos {w : World Nat D} {x : Nat × D} (hx : x ∈ w.heldPairs) :
    0 < w.heldNumbers.count x.1 :=
  Multiset.count_pos.mpr (Multiset.mem_map_of_mem Prod.fst hx)

section Operation

variable {w w' : World Nat D} {op : Op Nat D} {o : Outcome Nat}
  {c : Option (DeleterCall Nat D)} {loose : List Nat} {k : Nat}

/-- How often a number comes up. This is conservation of resources, with the deleters
forgotten. -/
theorem count_numbers (h : w.apply false op = some (w', o)) (hc : w'.calls = w.calls ++ c.toList)
    (k : Nat) :
    w'.heldNumbers.count k + (disposed c).count k + (op.taken w).count k
      = w.heldNumbers.count k + (op.given w).count k := by
  have hcount := congrArg (fun m => (m.map Prod.fst).count k) (apply_pairs h hc)
  simp only [Multiset.map_add, Multiset.count_add, Multiset.map_coe, Multiset.coe_count] at hcount
  exact hcount

/-- What the client has to dispose of, counted. The subtraction is safe because of
`count_given_le`. -/
theorem count_looseAfter (w : World Nat D) (loose : List Nat) (op : Op Nat D) (hk : k ≠ 0) :
    (op.looseAfter w loose).count k
      = loose.count k - (op.given w).count k + (op.taken w).count k := by
  rw [Op.looseAfter, List.count_append, List.count_diff, List.count_filter (by simpa using hk)]

/-- Nothing is handed in twice. -/
theorem count_given_le (hgiven : ∀ j ∈ op.given w, j ≠ 0 → j ∈ loose) (hk : k ≠ 0) :
    (op.given w).count k ≤ loose.count k := by
  have hone : (op.given w).count k ≤ 1 :=
    List.count_le_length.trans ((List.length_map _).trans_le (History.handsIn_length w op))
  rcases Nat.eq_zero_or_pos ((op.given w).count k) with hzero | hpos
  · exact hzero ▸ Nat.zero_le _
  · exact hone.trans (List.count_pos_iff.mpr (hgiven k (List.count_pos_iff.mp hpos) hk))

/-- **Nothing gets lost**, and nothing is disposed of that somebody else still has. -/
theorem custody_count (h : w.apply false op = some (w', o)) (hc : w'.calls = w.calls ++ c.toList)
    (hgiven : ∀ j ∈ op.given w, j ≠ 0 → j ∈ loose) (hk : k ≠ 0) :
    w'.heldNumbers.count k + (op.looseAfter w loose).count k + (disposed c).count k
      = w.heldNumbers.count k + loose.count k := by
  have hcount := count_numbers h hc k
  have hle := count_given_le hgiven hk
  rw [count_looseAfter w loose op hk]
  omega

end Operation

end World

end LomiriApi
