import Mathlib.Logic.Function.Basic
import Mathlib.Order.Defs.Unbundled

/-!
# Programs over cells

A program works on cells, each of which has an address `i : ι` and holds some
`a : α`. It is written statement by statement, in the monad `Prog ι α`.

- `Prog.read`, `Prog.write`: the statements. A statement touches one cell.
- `Prog.run`: the program in one piece.
- `Prog.Within ls`: the program touches no cells but those in `ls`. Such a program
  leaves the other cells alone (`run_of_not_mem`) and does not depend on them
  (`run_congr`).
- `Prog.next`: one statement; `run_next` is the rule that a run takes a statement
  off the front.
- `Prog.Respects r`: every assignment of the program takes a cell from `a` to some
  `b` with `r a b`; then so does the whole program (`run_respects`).
-/

namespace Lib

/-- A program over cells `α` at addresses `ι`, which ends with a result in `ρ`. A read
hands the cell to the rest of the program, so what is done next may depend on it. -/
inductive Prog (ι α ρ : Type) where
  | ret (r : ρ)
  | read (i : ι) (k : α → Prog ι α ρ)
  | write (i : ι) (f : α → α) (k : Prog ι α ρ)

namespace Prog

variable {ι α ρ ρ' : Type}

/-- One program after the other, which makes `Prog` a monad: code is written with `do`, as
in the source. -/
def andThen : Prog ι α ρ → (ρ → Prog ι α ρ') → Prog ι α ρ'
  | .ret r, g => g r
  | .read i k, g => .read i fun a => (k a).andThen g
  | .write i f k, g => .write i f (k.andThen g)

instance : Monad (Prog ι α) where
  pure := .ret
  bind := andThen

/-- With `andThen_assoc`, what `LawfulMonad` needs. -/
theorem andThen_ret (p : Prog ι α ρ) : p.andThen .ret = p := by
  induction p with
  | ret r => rfl
  | read i k ih => exact congrArg (Prog.read i) (funext ih)
  | write i f k ih => exact congrArg (Prog.write i f) ih

theorem andThen_assoc {ρ'' : Type} (p : Prog ι α ρ) (g : ρ → Prog ι α ρ')
    (h : ρ' → Prog ι α ρ'') : (p.andThen g).andThen h = p.andThen fun r => (g r).andThen h := by
  induction p with
  | ret r => rfl
  | read i k ih => exact congrArg (Prog.read i) (funext ih)
  | write i f k ih => exact congrArg (Prog.write i f) ih

instance : LawfulMonad (Prog ι α) :=
  LawfulMonad.mk' _ andThen_ret (fun _ _ => rfl) andThen_assoc

/-- Read the cell at `i`, as a statement on its own. -/
def load (i : ι) : Prog ι α α := .read i .ret

/-- Assign to the cell at `i`. The new value may depend on the old one: that is one
statement, as its cell is touched once. -/
def modify (i : ι) (f : α → α) : Prog ι α Unit := .write i f (.ret ())

/-! ## The program in one piece -/

section Run

variable [DecidableEq ι]

/-- The cells afterwards, and the result, if nobody else does anything in between. -/
def run : Prog ι α ρ → (ι → α) → (ι → α) × ρ
  | .ret r, m => (m, r)
  | .read i k, m => (k (m i)).run m
  | .write i f k, m => k.run (Function.update m i (f (m i)))

/-- The second program finds the cells as the first has left them. -/
theorem run_andThen (p : Prog ι α ρ) (g : ρ → Prog ι α ρ') (m : ι → α) :
    (p.andThen g).run m = (g (p.run m).2).run (p.run m).1 := by
  induction p generalizing m with
  | ret r => rfl
  | read i k ih => exact ih (m i) m
  | write i f k ih => exact ih (Function.update m i (f (m i)))

/-- The rules by which `simp` evaluates a program follow its syntax, one for each
construct. -/
@[simp] theorem run_bind (p : Prog ι α ρ) (g : ρ → Prog ι α ρ') (m : ι → α) :
    (p >>= g).run m = (g (p.run m).2).run (p.run m).1 := run_andThen p g m

@[simp] theorem run_pure (r : ρ) (m : ι → α) : (pure r : Prog ι α ρ).run m = (m, r) := rfl

@[simp] theorem run_map (f : ρ → ρ') (p : Prog ι α ρ) (m : ι → α) :
    (f <$> p).run m = ((p.run m).1, f (p.run m).2) := run_andThen p (fun r => .ret (f r)) m

@[simp] theorem run_ite {c : Prop} [Decidable c] (p q : Prog ι α ρ) (m : ι → α) :
    (if c then p else q).run m = if c then p.run m else q.run m := apply_ite (run · m) c p q

@[simp] theorem run_load (i : ι) (m : ι → α) : (load i : Prog ι α α).run m = (m, m i) := by
  simp only [load, run]

@[simp] theorem run_modify (i : ι) (f : α → α) (m : ι → α) :
    (modify i f).run m = (Function.update m i (f (m i)), ()) := by
  simp only [modify, run]

end Run

/-! ## Footprints -/

/-- The program touches no cells but those in `ls`, whatever it reads on the way. -/
def Within (ls : List ι) : Prog ι α ρ → Prop
  | .ret _ => True
  | .read i k => i ∈ ls ∧ ∀ a, (k a).Within ls
  | .write i _ k => i ∈ ls ∧ k.Within ls

/-- A footprint may be given too large. -/
theorem Within.mono {ls ls' : List ι} {p : Prog ι α ρ} (hp : p.Within ls)
    (h : ∀ i ∈ ls, i ∈ ls') : p.Within ls' := by
  induction p with
  | ret r => trivial
  | read i k ih => exact ⟨h i hp.1, fun a => ih a (hp.2 a)⟩
  | write i f k ih => exact ⟨h i hp.1, ih hp.2⟩

section Within

variable (ls : List ι) (i : ι)

@[simp] theorem within_pure (r : ρ) : (pure r : Prog ι α ρ).Within ls := trivial

/-- Footprints are computed along the syntax, too: a statement asks for its own cell, and
leaves the rest of the program to be checked. -/
@[simp] theorem within_load_bind (g : α → Prog ι α ρ) :
    (load i >>= g).Within ls ↔ i ∈ ls ∧ ∀ a, (g a).Within ls := Iff.rfl

@[simp] theorem within_modify_bind (f : α → α) (g : Unit → Prog ι α ρ) :
    (modify i f >>= g).Within ls ↔ i ∈ ls ∧ (g ()).Within ls := Iff.rfl

@[simp] theorem within_load : (load i : Prog ι α α).Within ls ↔ i ∈ ls := by
  simp [load, Within]

@[simp] theorem within_modify (f : α → α) : (modify i f).Within ls ↔ i ∈ ls := by
  simp [modify, Within]

@[simp] theorem within_map (f : ρ → ρ') (p : Prog ι α ρ) :
    (f <$> p).Within ls ↔ p.Within ls := by
  show (p.andThen fun b => .ret (f b)).Within ls ↔ p.Within ls
  induction p with
  | ret b => exact Iff.rfl
  | read j k ih => exact and_congr_right fun _ => forall_congr' ih
  | write j g k ih => exact and_congr_right fun _ => ih

@[simp] theorem within_ite {c : Prop} [Decidable c] (p q : Prog ι α ρ) :
    (if c then p else q).Within ls ↔ (c → p.Within ls) ∧ (¬c → q.Within ls) := by
  by_cases hc : c <;> simp [hc]

end Within

section Frame

variable [DecidableEq ι] {ls : List ι}

/-- A program leaves the cells outside its footprint alone. By induction on the program, as
each statement touches one cell inside. -/
theorem run_of_not_mem {p : Prog ι α ρ} (hp : p.Within ls) (m : ι → α) {i : ι} (hi : i ∉ ls) :
    (p.run m).1 i = m i := by
  induction p generalizing m with
  | ret r => rfl
  | read j k ih => exact ih (m j) (hp.2 _) m
  | write j f k ih =>
    have hij : i ≠ j := fun h => hi (h ▸ hp.1)
    show (k.run (Function.update m j (f (m j)))).1 i = m i
    rw [ih hp.2, Function.update_of_ne hij]

/-- A program does not depend on the cells outside its footprint: run where only those
differ, it returns the same, and leaves the same inside. -/
theorem run_congr {p : Prog ι α ρ} (hp : p.Within ls) {m m' : ι → α}
    (h : ∀ i ∈ ls, m i = m' i) :
    (p.run m).2 = (p.run m').2 ∧ ∀ i ∈ ls, (p.run m).1 i = (p.run m').1 i := by
  induction p generalizing m m' with
  | ret r => exact ⟨rfl, h⟩
  | read j k ih =>
    simp only [run, h j hp.1]
    exact ih (m' j) (hp.2 _) h
  | write j f k ih =>
    refine ih hp.2 fun i hi => ?_
    by_cases hij : i = j
    · subst hij
      rw [Function.update_self, Function.update_self, h i hi]
    · rw [Function.update_of_ne hij, Function.update_of_ne hij, h i hi]

end Frame

/-! ## What every assignment respects -/

/-- Every assignment takes a cell from `a` to some `b` with `r a b`. The condition is on
single statements, so it can be read off the code. -/
def Respects (r : α → α → Prop) : Prog ι α ρ → Prop
  | .ret _ => True
  | .read _ k => ∀ a, (k a).Respects r
  | .write _ f k => (∀ a, r a (f a)) ∧ k.Respects r

section Respects

variable (r : α → α → Prop) (i : ι)

@[simp] theorem respects_pure (b : ρ) : (pure b : Prog ι α ρ).Respects r := trivial

@[simp] theorem respects_load_bind (g : α → Prog ι α ρ) :
    (load i >>= g).Respects r ↔ ∀ a, (g a).Respects r := Iff.rfl

/-- Only assignments ask for anything; reading is free. -/
@[simp] theorem respects_modify_bind (f : α → α) (g : Unit → Prog ι α ρ) :
    (modify i f >>= g).Respects r ↔ (∀ a, r a (f a)) ∧ (g ()).Respects r := Iff.rfl

@[simp] theorem respects_load : (load i : Prog ι α α).Respects r := fun _ => trivial

@[simp] theorem respects_modify (f : α → α) : (modify i f).Respects r ↔ ∀ a, r a (f a) := by
  simp [modify, Respects]

@[simp] theorem respects_map (f : ρ → ρ') (p : Prog ι α ρ) :
    (f <$> p).Respects r ↔ p.Respects r := by
  show (p.andThen fun b => .ret (f b)).Respects r ↔ p.Respects r
  induction p with
  | ret b => exact Iff.rfl
  | read j k ih => exact forall_congr' ih
  | write j g k ih => exact and_congr_right fun _ => ih

@[simp] theorem respects_ite {c : Prop} [Decidable c] (p q : Prog ι α ρ) :
    (if c then p else q).Respects r ↔ (c → p.Respects r) ∧ (¬c → q.Respects r) := by
  by_cases hc : c <;> simp [hc]

variable {r}

/-- What every assignment respects, the program respects, as `r` is reflexive and
transitive. -/
theorem run_respects [DecidableEq ι] [IsPreorder α r] {p : Prog ι α ρ} (hp : p.Respects r)
    (m : ι → α) (i : ι) : r (m i) ((p.run m).1 i) := by
  induction p generalizing m with
  | ret b => exact refl_of r (m i)
  | read j k ih => exact ih (m j) (hp _) m
  | write j f k ih =>
    have hrest := ih hp.2 (Function.update m j (f (m j)))
    by_cases hij : i = j
    · subst hij
      rw [Function.update_self] at hrest
      exact trans_of r (hp.1 (m i)) hrest
    · rwa [Function.update_of_ne hij] at hrest

end Respects

/-! ## Statement by statement -/

/-- The cell that the next statement touches: a data race is two threads about to touch the
same one. -/
def touches : Prog ι α ρ → Option ι
  | .ret _ => none
  | .read i _ => some i
  | .write i _ _ => some i

/-- The next statement stays in the footprint, so whoever holds the locks of the footprint
holds the lock of that cell. -/
theorem mem_of_touches {p : Prog ι α ρ} {ls : List ι} (hp : p.Within ls) {i : ι}
    (h : p.touches = some i) : i ∈ ls := by
  cases p with
  | ret r => cases h
  | read j k => exact Option.some.inj h ▸ hp.1
  | write j f k => exact Option.some.inj h ▸ hp.1

section Next

variable [DecidableEq ι]

/-- The next statement of a program, if there is one left: the cells afterwards and the
rest of the program. This is how a thread executes it, with other threads in between. -/
def next : Prog ι α ρ → (ι → α) → Option ((ι → α) × Prog ι α ρ)
  | .ret _, _ => none
  | .read i k, m => some (m, k (m i))
  | .write i f k, m => some (Function.update m i (f (m i)), k)

variable {p q : Prog ι α ρ} {m m' : ι → α}

/-- A statement is a read or a write; the lemmas below go by these two cases. -/
theorem next_cases (h : p.next m = some (m', q)) :
    (∃ i k, p = .read i k ∧ m' = m ∧ q = k (m i)) ∨
    (∃ i f, p = .write i f q ∧ m' = Function.update m i (f (m i))) := by
  cases p with
  | ret r => cases h
  | read i k =>
    obtain ⟨rfl, rfl⟩ := Prod.mk.inj (Option.some.inj h)
    exact .inl ⟨i, k, rfl, rfl, rfl⟩
  | write i f k =>
    obtain ⟨rfl, rfl⟩ := Prod.mk.inj (Option.some.inj h)
    exact .inr ⟨i, f, rfl, rfl⟩

/-- **The rule for one statement**: whether it is taken off the front or not, the run comes
out the same. -/
theorem run_next (h : p.next m = some (m', q)) : p.run m = q.run m' := by
  obtain ⟨i, k, rfl, rfl, rfl⟩ | ⟨i, f, rfl, rfl⟩ := next_cases h
  · rfl
  · rfl

/-- The rest of a program stays in the footprint. -/
theorem within_next {ls : List ι} (hp : p.Within ls) (h : p.next m = some (m', q)) :
    q.Within ls := by
  obtain ⟨i, k, rfl, rfl, rfl⟩ | ⟨i, f, rfl, rfl⟩ := next_cases h
  · exact hp.2 _
  · exact hp.2

/-- One statement leaves the cells outside the footprint alone. -/
theorem next_of_not_mem {ls : List ι} (hp : p.Within ls) (h : p.next m = some (m', q)) {i : ι}
    (hi : i ∉ ls) : m' i = m i := by
  obtain ⟨j, k, rfl, rfl, rfl⟩ | ⟨j, f, rfl, rfl⟩ := next_cases h
  · rfl
  · have hij : i ≠ j := fun h => hi (h ▸ hp.1)
    exact Function.update_of_ne hij _ _

/-- The rest of a program respects what the program did. -/
theorem respects_next {r : α → α → Prop} (hp : p.Respects r) (h : p.next m = some (m', q)) :
    q.Respects r := by
  obtain ⟨i, k, rfl, rfl, rfl⟩ | ⟨i, f, rfl, rfl⟩ := next_cases h
  · exact hp _
  · exact hp.2

end Next

end Prog

end Lib
