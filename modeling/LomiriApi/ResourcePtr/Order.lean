import LomiriApi.ResourcePtr.World
import Mathlib.Order.WithBot

/-!
# `ResourcePtr`: the comparison operators

- `operatorEq` … `operatorGe`: the six operators, each with the addresses of its
  operands (the operators test `this == &rhs` first), and the `std` function
  objects that call them.
- `observed`: what an outside observer can see of an object, as a point of
  `WithBot R`: "no resource" is the least element.
- `operatorLe` and, through it, `operatorGt` read `resource_` without asking
  `initialized_`. `OrderLaws` is what the operators should satisfy and
  `StoredAgrees` the exact condition under which they do:
  `comparisons_agree_iff`.
-/

namespace LomiriApi

namespace ResourcePtr

variable {R D : Type}

section Operators

variable [DecidableEq R] [LT R] [DecidableLT R]

/-- `operator==`. Two objects without a resource are equal, whatever is still stored in
them. -/
def operatorEq (this rhs : Nat) (p q : ResourcePtr R D) : Bool :=
  if this = rhs then true
  else if !p.initialized_ then !q.initialized_
  else if !q.initialized_ then false
  else p.resource_ == q.resource_

/-- `operator!=`. -/
def operatorNe (this rhs : Nat) (p q : ResourcePtr R D) : Bool :=
  !(operatorEq this rhs p q)

/-- `operator<`. An object without a resource is less than one with a resource. -/
def operatorLt (this rhs : Nat) (p q : ResourcePtr R D) : Bool :=
  if this = rhs then false
  else if !p.initialized_ then q.initialized_
  else if !q.initialized_ then false
  else p.resource_ < q.resource_

/-- `operator<=`. -/
def operatorLe (this rhs : Nat) (p q : ResourcePtr R D) : Bool :=
  if this = rhs then true
  -- unlike `operator<`, no look at `initialized_`
  else p.resource_ < q.resource_ || p.resource_ == q.resource_

/-- `operator>`. -/
def operatorGt (this rhs : Nat) (p q : ResourcePtr R D) : Bool :=
  !(operatorLe this rhs p q)

/-- `operator>=`. -/
def operatorGe (this rhs : Nat) (p q : ResourcePtr R D) : Bool :=
  !(operatorLt this rhs p q)

/-- `std::equal_to`. -/
def equalTo (lhs rhs : Nat) (p q : ResourcePtr R D) : Bool := operatorEq lhs rhs p q

/-- `std::not_equal_to`. -/
def notEqualTo (lhs rhs : Nat) (p q : ResourcePtr R D) : Bool := operatorNe lhs rhs p q

/-- `std::less`. -/
def less (lhs rhs : Nat) (p q : ResourcePtr R D) : Bool := operatorLt lhs rhs p q

/-- `std::less_equal`. -/
def lessEqual (lhs rhs : Nat) (p q : ResourcePtr R D) : Bool := operatorLe lhs rhs p q

/-- `std::greater`. -/
def greater (lhs rhs : Nat) (p q : ResourcePtr R D) : Bool := operatorGt lhs rhs p q

/-- `std::greater_equal`. -/
def greaterEqual (lhs rhs : Nat) (p q : ResourcePtr R D) : Bool := operatorGe lhs rhs p q

end Operators

/-- The observable state: "no resource" is below every held value. This is the order that
the documentation of the operators describes. -/
def observed (p : ResourcePtr R D) : WithBot R := p.held

theorem observed_of_empty (r : R) (d : D) : (⟨r, d, false⟩ : ResourcePtr R D).observed = ⊥ := rfl

theorem observed_of_held (r : R) (d : D) : (⟨r, d, true⟩ : ResourcePtr R D).observed = r := rfl

variable [LinearOrder R]

/-- The operators on the objects `p` at address `i` and `q` at address `j` are the
relations of the order of observable states, and fit together as the relations of one order
do. The laws are about a pair, so that it can be said of which pairs they fail. -/
structure OrderLaws (i j : Nat) (p q : ResourcePtr R D) : Prop where
  eq : operatorEq i j p q = true ↔ p.observed = q.observed
  ne : operatorNe i j p q = true ↔ p.observed ≠ q.observed
  lt : operatorLt i j p q = true ↔ p.observed < q.observed
  le : operatorLe i j p q = true ↔ p.observed ≤ q.observed
  gt : operatorGt i j p q = true ↔ q.observed < p.observed
  ge : operatorGe i j p q = true ↔ q.observed ≤ p.observed
  equalTo : equalTo i j p q = operatorEq i j p q
  notEqualTo : notEqualTo i j p q = operatorNe i j p q
  less : less i j p q = operatorLt i j p q
  lessEqual : lessEqual i j p q = operatorLe i j p q
  greater : greater i j p q = operatorGt i j p q
  greaterEqual : greaterEqual i j p q = operatorGe i j p q
  /-- exactly one of `a < b`, `a == b`, `b < a` -/
  trichotomy :
    (operatorLt i j p q = true ∧ operatorEq i j p q = false ∧ operatorLt j i q p = false) ∨
    (operatorLt i j p q = false ∧ operatorEq i j p q = true ∧ operatorLt j i q p = false) ∨
    (operatorLt i j p q = false ∧ operatorEq i j p q = false ∧ operatorLt j i q p = true)
  le_iff : operatorLe i j p q = true ↔ operatorLt i j p q = true ∨ operatorEq i j p q = true
  gt_iff : operatorGt i j p q = true ↔ operatorLt j i q p = true
  ge_iff : operatorGe i j p q = true ↔ operatorLe j i q p = true

/-- The stored values of two objects compare as their observable states do: both
hold a resource, or neither does and their stale values are equal, or the one
that holds a resource stores the greater value. An object agrees with itself. -/
def StoredAgrees (i j : Nat) (p q : ResourcePtr R D) : Prop :=
  i = j ∨
  (p.hasResource = true ∧ q.hasResource = true) ∨
  (p.hasResource = false ∧ q.hasResource = false ∧ p.resource_ = q.resource_) ∨
  (p.hasResource = false ∧ q.hasResource = true ∧ p.resource_ < q.resource_) ∨
  (p.hasResource = true ∧ q.hasResource = false ∧ q.resource_ < p.resource_)

/-! ## `==`, `!=`, `<` and `>=` follow the observable state -/

section Sound

variable {i j : Nat} {p q : ResourcePtr R D}

theorem operatorEq_iff (hsame : i = j → p = q) :
    operatorEq i j p q = true ↔ p.observed = q.observed := by
  by_cases hij : i = j
  · simp [operatorEq, hij, hsame hij]
  · obtain ⟨r, d, b⟩ := p
    obtain ⟨r', d', b'⟩ := q
    cases b <;> cases b' <;> simp [operatorEq, hij, observed_of_empty, observed_of_held]

theorem operatorLt_iff (hsame : i = j → p = q) :
    operatorLt i j p q = true ↔ p.observed < q.observed := by
  by_cases hij : i = j
  · simp [operatorLt, hij, hsame hij]
  · obtain ⟨r, d, b⟩ := p
    obtain ⟨r', d', b'⟩ := q
    cases b <;> cases b' <;> simp [operatorLt, hij, observed_of_empty, observed_of_held]

theorem operatorNe_iff (hsame : i = j → p = q) :
    operatorNe i j p q = true ↔ p.observed ≠ q.observed := by
  rw [operatorNe, Bool.not_eq_true', Ne, ← operatorEq_iff hsame, Bool.not_eq_true]

theorem operatorGe_iff (hsame : i = j → p = q) :
    operatorGe i j p q = true ↔ q.observed ≤ p.observed := by
  rw [operatorGe, Bool.not_eq_true', ← not_lt, ← operatorLt_iff hsame, Bool.not_eq_true]

/-- Between two different objects `operator<=` compares the stored values. -/
theorem operatorLe_iff_stored (hij : i ≠ j) :
    operatorLe i j p q = true ↔ p.resource_ ≤ q.resource_ := by
  simp [operatorLe, hij, le_iff_lt_or_eq]

/-- `operator<=` is right in both directions exactly when the stored values
compare as the observable states do. -/
theorem operatorLe_iff_both (hsame : i = j → p = q) :
    ((operatorLe i j p q = true ↔ p.observed ≤ q.observed) ∧
      (operatorLe j i q p = true ↔ q.observed ≤ p.observed)) ↔ StoredAgrees i j p q := by
  by_cases hij : i = j
  · simp [operatorLe, hij, hsame hij, StoredAgrees]
  · rw [operatorLe_iff_stored hij, operatorLe_iff_stored (Ne.symm hij)]
    obtain ⟨r, d, b⟩ := p
    obtain ⟨r', d', b'⟩ := q
    cases b <;> cases b' <;>
      simp [StoredAgrees, hij, hasResource, observed_of_empty, observed_of_held]
    · exact le_antisymm_iff.symm
    · exact le_of_lt
    · exact le_of_lt

/-- `<` and `==` are the relations of a linear order, so exactly one of `a < b`,
`a == b`, `b < a` holds. -/
theorem operator_trichotomy (hsame : i = j → p = q) :
    (operatorLt i j p q = true ∧ operatorEq i j p q = false ∧ operatorLt j i q p = false) ∨
    (operatorLt i j p q = false ∧ operatorEq i j p q = true ∧ operatorLt j i q p = false) ∨
    (operatorLt i j p q = false ∧ operatorEq i j p q = false ∧ operatorLt j i q p = true) := by
  have hsame' : j = i → q = p := fun h => (hsame h.symm).symm
  simp only [← Bool.not_eq_true, operatorEq_iff hsame, operatorLt_iff hsame,
    operatorLt_iff hsame']
  rcases lt_trichotomy p.observed q.observed with h | h | h
  · exact .inl ⟨h, h.ne, h.asymm⟩
  · exact .inr (.inl ⟨h.not_lt, h, h.not_gt⟩)
  · exact .inr (.inr ⟨h.asymm, h.ne', h⟩)

/-- The laws hold as soon as `operator<=` is right in both directions. -/
theorem orderLaws_of_le (hsame : i = j → p = q)
    (hle : operatorLe i j p q = true ↔ p.observed ≤ q.observed)
    (hle' : operatorLe j i q p = true ↔ q.observed ≤ p.observed) : OrderLaws i j p q where
  eq := operatorEq_iff hsame
  ne := operatorNe_iff hsame
  lt := operatorLt_iff hsame
  le := hle
  gt := by rw [operatorGt, Bool.not_eq_true', ← not_le, ← hle, Bool.not_eq_true]
  ge := operatorGe_iff hsame
  equalTo := rfl
  notEqualTo := rfl
  less := rfl
  lessEqual := rfl
  greater := rfl
  greaterEqual := rfl
  trichotomy := operator_trichotomy hsame
  le_iff := by rw [hle, operatorLt_iff hsame, operatorEq_iff hsame, le_iff_lt_or_eq]
  gt_iff := by
    rw [operatorGt, Bool.not_eq_true', ← Bool.not_eq_true, hle, not_le,
      operatorLt_iff fun h => (hsame h.symm).symm]
  ge_iff := by rw [operatorGe_iff hsame, hle']

/-- The laws hold exactly when the stored values agree with the observable
states. -/
theorem orderLaws_iff (hsame : i = j → p = q) :
    OrderLaws i j p q ↔ StoredAgrees i j p q := by
  rw [← operatorLe_iff_both hsame]
  constructor
  · intro h
    exact ⟨h.le, h.ge_iff.symm.trans h.ge⟩
  · rintro ⟨hle, hle'⟩
    exact orderLaws_of_le hsame hle hle'

end Sound

/-! ## The operators on reachable objects -/

/-- **The comparison operators, exactly.** For two objects of any world (of any
reachable one, in particular), the six operators and the function objects that
call them are the relations of the order of observable states if and only if the
stored values of the two objects compare as their observable states do; and `<`
is transitive without any condition. -/
theorem comparisons_agree_iff (w : World R D) :
    (∀ i j p q, w.get i = some p → w.get j = some q →
      (OrderLaws i j p q ↔ StoredAgrees i j p q)) ∧
    (∀ i j k p q r, w.get i = some p → w.get j = some q → w.get k = some r →
      operatorLt i j p q = true → operatorLt j k q r = true → operatorLt i k p r = true) := by
  constructor
  · intro i j p q hi hj
    exact orderLaws_iff (World.get_inj hi hj)
  · intro i j k p q r hi hj hk
    rw [operatorLt_iff (World.get_inj hi hj), operatorLt_iff (World.get_inj hj hk),
      operatorLt_iff (World.get_inj hi hk)]
    exact lt_trans

/-- Two objects that have released their resources, 5 and 3. -/
def releasedPair : History Nat Nat :=
  ⟨⟨[some ⟨5, 0, false⟩, some ⟨3, 0, false⟩], []⟩, [(5, 0), (3, 0)], [(5, 0), (3, 0)]⟩

theorem releasedPair_reachable : releasedPair.Reachable :=
  ⟨[(.ofResource 5 0, false), (.ofResource 3 0, false), (.release 0, false), (.release 1, false)],
    by decide⟩

/-- Neither of two objects holds a resource, they compare equal, and yet the first
is not `<=` the second. -/
theorem comparisons_disagree_released :
    ¬ ∀ h : History Nat Nat, h.Reachable → ∀ i j p q,
      h.world.get i = some p → h.world.get j = some q → OrderLaws i j p q := by
  intro hall
  have hlaws := hall releasedPair releasedPair_reachable 0 1 ⟨5, 0, false⟩ ⟨3, 0, false⟩ rfl rfl
  have hle := hlaws.le_iff.mpr (.inr (by decide))
  exact absurd hle (by decide)

/-- Two objects that hold 3 and 5. -/
def heldPair : World Nat Nat := ⟨[some ⟨3, 0, true⟩, some ⟨5, 0, true⟩], []⟩

theorem comparisons_agree_iff_released :
    (OrderLaws 0 1 (⟨5, 0, false⟩ : ResourcePtr Nat Nat) ⟨3, 0, false⟩
      ↔ StoredAgrees 0 1 (⟨5, 0, false⟩ : ResourcePtr Nat Nat) ⟨3, 0, false⟩) ∧
    OrderLaws 0 1 (⟨3, 0, true⟩ : ResourcePtr Nat Nat) ⟨5, 0, true⟩ :=
  ⟨(comparisons_agree_iff releasedPair.world).1 0 1 _ _ rfl rfl,
    ((comparisons_agree_iff heldPair).1 0 1 _ _ rfl rfl).mpr (.inr (.inl ⟨rfl, rfl⟩))⟩

end ResourcePtr

end LomiriApi
