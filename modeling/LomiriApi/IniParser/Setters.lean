import LomiriApi.IniParser.Basic
import LomiriApi.IniParser.ListKeyFile
import Mathlib.Data.List.TakeDrop

/-!
# What a set method stores

A set method keeps a value if afterwards the pair exists, reads as exactly this
value, and all other pairs read as before (`IniParser.Keeps`). GLib ignores an
invalid name and a NULL list without an error, and `IniParser` does not check for
either: an empty vector of numbers is passed as NULL, and the length of a long one
is cut to an `int`. `IniParser.keeps_iff` is the exact condition.
-/

namespace LomiriApi

namespace IniValue

/-- The strings of the value have no embedded NUL. Behind one, GLib would see nothing of a
string. -/
def NulFree : IniValue → Prop
  | string s => LomiriApi.NulFree s
  | stringArray l => ∀ s ∈ l, LomiriApi.NulFree s
  | _ => True

/-- GLib gets all of the value. The length of a list goes through an `int`, for a list of
strings together with the NULL at its end; and a list of numbers must not be empty. -/
def Fits : IniValue → Prop
  | stringArray l => l.length < 2 ^ 31 - 1
  | booleanArray l => 0 < l.length ∧ l.length < 2 ^ 31
  | intArray l => 0 < l.length ∧ l.length < 2 ^ 31
  | _ => True

/-- The setter of GLib is reached, though perhaps with a part of the value only. If the
length is cut to a negative number, `g_new` ends the program. -/
def Passed : IniValue → Prop
  | stringArray l => l.length % 2 ^ 32 < 2 ^ 31 - 1
  | booleanArray l => l.length % 2 ^ 32 < 2 ^ 31
  | intArray l => l.length % 2 ^ 32 < 2 ^ 31
  | _ => True

/-- GLib gets a NULL list, which it ignores without an error. An empty vector of numbers is
passed like this. -/
def Null : IniValue → Prop
  | booleanArray l => l.length % 2 ^ 32 = 0
  | intArray l => l.length % 2 ^ 32 = 0
  | _ => False

end IniValue

namespace IniParser

variable {K D F : Type} (G : GKeyFile K D F)

/-- The set method for a value. -/
def setMethod (p : IniParser K) (group key : Text) : IniValue → IniParser K × CallResult Unit
  | .string s => p.setString G group key s
  | .int i => p.setInt G group key i
  | .boolean b => p.setBoolean G group key b
  | .stringArray l => p.setStringArray G group key l
  | .booleanArray l => p.setBooleanArray G group key l
  | .intArray l => p.setIntArray G group key l

/-- The pair exists, and the matching get method returns exactly the value. -/
def ReadsAs (p : IniParser K) (group key : Text) (v : IniValue) : Prop :=
  p.hasKey G group key = .ok true ∧
    match v with
    | .string s => p.getString G group key = .ok s
    | .int i => p.getInt G group key = .ok i
    | .boolean b => p.getBoolean G group key = .ok b
    | .stringArray l => p.getStringArray G group key = .ok l
    | .booleanArray l => p.getBooleanArray G group key = .ok l
    | .intArray l => p.getIntArray G group key = .ok l

/-- The call throws, or it returns a parser with the property `P`. To throw is no silent
loss, so it is allowed. -/
def ThrowsOrReturns (P : IniParser K → Prop) : IniParser K × CallResult Unit → Prop
  | (_, .throws _) => True
  | (_, .crash) => False
  | (p, .ok _) => P p

/-- The set method throws, or it returns and the value is there while every other
pair reads as before. Pairs are told apart by the C strings that GLib sees. -/
def Keeps (p : IniParser K) (group key : Text) (v : IniValue) : Prop :=
  ThrowsOrReturns (fun p' => p'.ReadsAs G group key v ∧
    ∀ group' key', (cStr group', cStr key') ≠ (cStr group, cStr key) →
      p'.read G group' key' = p.read G group' key') (p.setMethod G group key v)

/-- What is needed for a value to be kept: GLib takes the names and gets all of the
value; or the call has no effect, and the value is there already. -/
def Storable (p : IniParser K) (group key : Text) (v : IniValue) : Prop :=
  G.ValidNames (cStr group) (cStr key) ∧ v.Fits ∨
    v.Passed ∧ (¬ G.ValidNames (cStr group) (cStr key) ∨ v.Null) ∧ p.ReadsAs G group key v

end IniParser

/-! ## Vectors as arguments -/

theorem intOfSize_of_lt {n : Nat} (h : n % 2 ^ 32 < 2 ^ 31) : intOfSize n = (n % 2 ^ 32 : Nat) := by
  rw [intOfSize, BitVec.toInt_eq_toNat_of_lt]
  · rw [BitVec.toNat_ofNat]
  · rw [BitVec.toNat_ofNat]
    omega

theorem intOfSize_neg {n : Nat} (h : ¬ n % 2 ^ 32 < 2 ^ 31) : intOfSize n < 0 := by
  rw [intOfSize, BitVec.toInt_neg_iff, BitVec.toNat_ofNat]
  omega

theorem newList_eq {τ : Type} (l : List τ) : newList l =
    if l.length % 2 ^ 32 < 2 ^ 31 then
      some (if l.length % 2 ^ 32 = 0 then none else some (l.take (l.length % 2 ^ 32)))
    else none := by
  by_cases h : l.length % 2 ^ 32 < 2 ^ 31
  · rw [newList, intOfSize_of_lt h, if_pos h, if_neg (by omega)]
    by_cases h0 : l.length % 2 ^ 32 = 0
    · rw [if_pos (by omega), if_pos h0]
    · rw [if_neg (by omega), if_neg h0, Int.toNat_natCast]
  · rw [newList, if_pos (intOfSize_neg h), if_neg h]

theorem newStringList_eq (l : List Text) : newStringList l =
    if l.length % 2 ^ 32 < 2 ^ 31 - 1 then some ((l.take (l.length % 2 ^ 32)).map cStr)
    else none := by
  by_cases h : l.length % 2 ^ 32 < 2 ^ 31
  · rw [newStringList, intOfSize_of_lt h, Int.toNat_natCast]
    by_cases h' : l.length % 2 ^ 32 < 2 ^ 31 - 1
    · rw [if_pos (by omega), if_pos h']
    · rw [if_neg (by omega), if_neg h']
  · have hneg := intOfSize_neg h
    rw [newStringList, if_neg (by omega), if_neg (by omega)]

/-- A list that is passed is passed whole if it is not too long. -/
theorem take_mod_eq_iff {τ : Type} (l : List τ) :
    l.take (l.length % 2 ^ 32) = l ↔ l.length < 2 ^ 32 := by
  rw [List.take_eq_self_iff]
  omega

theorem map_cStr_of_nulFree {l : List Text} (h : ∀ s ∈ l, NulFree s) : l.map cStr = l :=
  (List.map_congr_left fun s hs => cStr_of_nulFree (h s hs)).trans (List.map_id l)

/-- What is passed of a vector of strings without NUL. -/
theorem newStringList_of_nulFree {l : List Text} (h : ∀ s ∈ l, NulFree s) : newStringList l =
    if l.length % 2 ^ 32 < 2 ^ 31 - 1 then some (l.take (l.length % 2 ^ 32)) else none := by
  rw [newStringList_eq, map_cStr_of_nulFree fun s hs => h s (List.mem_of_mem_take hs)]

theorem take_mod_eq_iff_of_passed {τ : Type} {l : List τ} (h : l.length % 2 ^ 32 < 2 ^ 31 - 1) :
    l.take (l.length % 2 ^ 32) = l ↔ l.length < 2 ^ 31 - 1 := by
  rw [take_mod_eq_iff]
  omega

/-! ## One set method -/

namespace IniParser

variable {K D F : Type} {G : GKeyFile K D F}

theorem throwsOrReturns_setValue {α : Type} (P : IniParser K → Prop) (p : IniParser K)
    (set : K → α → K) (arg : Option α) :
    ThrowsOrReturns P (p.setValue set arg) ↔
      ∃ a, arg = some a ∧ P { p with k := set p.k a, dirty := true } := by
  cases arg with
  | none => simp [setValue, ThrowsOrReturns]
  | some a => simp [setValue, ThrowsOrReturns]

section Lawful

variable {α β γ : Type} {convert : β → Option γ} (p : IniParser K) (group key : Text)

/-- The rule for one setter: GLib gets its argument, or it is ignored. In the second case
the value must have been there before. -/
theorem set_keeps_iff {fns : ValueFunctions K α β} {WellFormed : α → Prop} {value : α → Option γ}
    (laws : fns.Lawful G convert WellFormed value) (pre : Text) {a : α} (ha : WellFormed a)
    (v : γ) :
    (let p' : IniParser K := { p with k := fns.set p.k (cStr group) (cStr key) a, dirty := true }
    (p'.hasKey G group key = .ok true ∧
      p'.getValue convert pre group (fns.get p'.k (cStr group) (cStr key)) = .ok v) ∧
      ∀ group' key', (cStr group', cStr key') ≠ (cStr group, cStr key) →
        p'.read G group' key' = p.read G group' key') ↔
    G.ValidNames (cStr group) (cStr key) ∧ value a = some v ∨
      (¬ G.ValidNames (cStr group) (cStr key) ∨ value a = none) ∧
        p.hasKey G group key = .ok true ∧
          p.getValue convert pre group (fns.get p.k (cStr group) (cStr key)) = .ok v := by
  have hothers : ∀ group' key', (cStr group', cStr key') ≠ (cStr group, cStr key) →
      IniParser.read G { p with k := fns.set p.k (cStr group) (cStr key) a, dirty := true }
        group' key' = p.read G group' key' := by
    intro group' key' hne
    rw [read_eq, read_eq, laws.reading_set _ _ _ _ _ _ hne]
  simp only [and_iff_left hothers]
  by_cases hignored : ¬ G.ValidNames (cStr group) (cStr key) ∨ value a = none
  · -- the key file does not change
    have hset : fns.set p.k (cStr group) (cStr key) a = p.k :=
      hignored.elim (laws.set_invalid _ _ _ _) (laws.set_null _ _ _ _)
    have hstored : ¬ (G.ValidNames (cStr group) (cStr key) ∧ value a = some v) := by
      rintro ⟨hvalid, hval⟩
      rcases hignored with h | h
      · exact h hvalid
      · cases h.symm.trans hval
    simp only [hset, hstored, hignored, true_and, false_or]
    exact Iff.rfl
  · obtain ⟨hvalid, hsome⟩ := not_or.mp hignored
    rw [not_not] at hvalid
    obtain ⟨w, hw⟩ := Option.ne_none_iff_exists'.mp hsome
    have hkey := laws.hasKey_set p.k _ _ a w hvalid ha hw
    have hget := laws.get_set p.k _ _ a w hvalid ha hw
    rw [or_iff_left fun h => hignored h.1]
    simp only [hvalid, true_and, hw, getValue_eq_ok, hget, hasKey, hkey]
    exact and_iff_right rfl

/-- Setting a single value. -/
theorem keeps_scalar {fns : ValueFunctions K γ β} {WellFormed : γ → Prop}
    (laws : fns.Lawful G convert WellFormed some) (pre : Text) {v : γ} (hv : WellFormed v) :
    ThrowsOrReturns (fun p' => (p'.hasKey G group key = .ok true ∧
      p'.getValue convert pre group (fns.get p'.k (cStr group) (cStr key)) = .ok v) ∧
      ∀ group' key', (cStr group', cStr key') ≠ (cStr group, cStr key) →
        p'.read G group' key' = p.read G group' key')
      (p.setValue (fun k => fns.set k (cStr group) (cStr key)) (some v)) ↔
    G.ValidNames (cStr group) (cStr key) ∧ True ∨
      True ∧ (¬ G.ValidNames (cStr group) (cStr key) ∨ False) ∧ p.hasKey G group key = .ok true ∧
        p.getValue convert pre group (fns.get p.k (cStr group) (cStr key)) = .ok v := by
  rw [throwsOrReturns_setValue]
  simp only [Option.some.injEq, exists_eq_left', and_true, true_and, or_false]
  refine (set_keeps_iff p group key laws pre hv v).trans ?_
  simp only [and_true, or_false, reduceCtorEq]

/-- Setting a vector of numbers. -/
theorem keeps_newList {τ : Type} {fns : ValueFunctions K (Option (List τ)) β}
    {convert : β → Option (List τ)} (laws : fns.Lawful G convert (fun _ => True) id) (pre : Text)
    (l : List τ) :
    ThrowsOrReturns (fun p' => (p'.hasKey G group key = .ok true ∧
      p'.getValue convert pre group (fns.get p'.k (cStr group) (cStr key)) = .ok l) ∧
      ∀ group' key', (cStr group', cStr key') ≠ (cStr group, cStr key) →
        p'.read G group' key' = p.read G group' key')
      (p.setValue (fun k => fns.set k (cStr group) (cStr key)) (newList l)) ↔
    G.ValidNames (cStr group) (cStr key) ∧ (0 < l.length ∧ l.length < 2 ^ 31) ∨
      l.length % 2 ^ 32 < 2 ^ 31 ∧
        (¬ G.ValidNames (cStr group) (cStr key) ∨ l.length % 2 ^ 32 = 0) ∧
          p.hasKey G group key = .ok true ∧
            p.getValue convert pre group (fns.get p.k (cStr group) (cStr key)) = .ok l := by
  rw [throwsOrReturns_setValue, newList_eq]
  by_cases hpassed : l.length % 2 ^ 32 < 2 ^ 31
  · rw [if_pos hpassed]
    simp only [Option.some.injEq, exists_eq_left', hpassed, true_and]
    refine (set_keeps_iff p group key laws pre trivial l).trans ?_
    by_cases h0 : l.length % 2 ^ 32 = 0
    · -- a NULL list
      have hfits : ¬ (0 < l.length ∧ l.length < 2 ^ 31) := by omega
      simp only [h0, if_true, id, hfits, and_false, or_true, reduceCtorEq]
    · have hwhole : l.take (l.length % 2 ^ 32) = l ↔ 0 < l.length ∧ l.length < 2 ^ 31 := by
        rw [take_mod_eq_iff]
        omega
      rw [if_neg h0]
      simp only [id, Option.some.injEq, hwhole, h0, or_false, reduceCtorEq]
  · have hfits : ¬ (0 < l.length ∧ l.length < 2 ^ 31) := by omega
    rw [if_neg hpassed]
    simp only [hpassed, hfits, false_and, and_false, or_false, exists_const, reduceCtorEq]

/-- Setting a vector of strings. -/
theorem keeps_newStringList {fns : ValueFunctions K (Option (List Text)) β}
    {convert : β → Option (List Text)}
    (laws : fns.Lawful G convert (fun l => ∀ ss ∈ l, ∀ s ∈ ss, NulFree s) id) (pre : Text)
    {l : List Text} (hl : ∀ s ∈ l, NulFree s) :
    ThrowsOrReturns (fun p' => (p'.hasKey G group key = .ok true ∧
      p'.getValue convert pre group (fns.get p'.k (cStr group) (cStr key)) = .ok l) ∧
      ∀ group' key', (cStr group', cStr key') ≠ (cStr group, cStr key) →
        p'.read G group' key' = p.read G group' key')
      (p.setValue (fun k => fns.set k (cStr group) (cStr key)) ((newStringList l).map some)) ↔
    G.ValidNames (cStr group) (cStr key) ∧ l.length < 2 ^ 31 - 1 ∨
      l.length % 2 ^ 32 < 2 ^ 31 - 1 ∧ (¬ G.ValidNames (cStr group) (cStr key) ∨ False) ∧
        p.hasKey G group key = .ok true ∧
          p.getValue convert pre group (fns.get p.k (cStr group) (cStr key)) = .ok l := by
  have htake : ∀ s ∈ l.take (l.length % 2 ^ 32), NulFree s :=
    fun s hs => hl s (List.mem_of_mem_take hs)
  rw [throwsOrReturns_setValue, newStringList_of_nulFree hl]
  by_cases hpassed : l.length % 2 ^ 32 < 2 ^ 31 - 1
  · rw [if_pos hpassed]
    simp only [Option.map_some, Option.some.injEq, exists_eq_left', hpassed, true_and]
    refine (set_keeps_iff p group key laws pre (fun ss hss => ?_) l).trans ?_
    · rwa [← Option.mem_some.mp hss]
    · simp only [id, Option.some.injEq, take_mod_eq_iff_of_passed hpassed, reduceCtorEq]
  · have hfits : ¬ l.length < 2 ^ 31 - 1 := by omega
    rw [if_neg hpassed]
    simp only [hpassed, hfits, Option.map_none, false_and, and_false, or_false, exists_const,
      reduceCtorEq]

end Lawful

/-! ## All set methods -/

/-- **No set method drops a write silently**, exactly under the condition `Storable`:
for every key file, every names and every value. -/
theorem keeps_iff (laws : KeyFileLaws G) (p : IniParser K) (group key : Text) {v : IniValue}
    (hv : v.NulFree) : p.Keeps G group key v ↔ p.Storable G group key v := by
  cases v with
  | string s =>
    simp only [Keeps, setMethod, setString, cStr_of_nulFree hv]
    exact keeps_scalar p group key laws.string "Could not get string value" hv
  | int i => exact keeps_scalar p group key laws.integer "Could not get integer value" trivial
  | boolean b => exact keeps_scalar p group key laws.boolean "Could not get boolean value" trivial
  | stringArray l =>
    exact keeps_newStringList p group key laws.stringList "Could not get string array" hv
  | booleanArray l =>
    exact keeps_newList p group key laws.booleanList "Could not get boolean array" l
  | intArray l =>
    exact keeps_newList p group key laws.integerList "Could not get integer array" l

/-- A file with one list. -/
def oneList : IniParser ListKeyFile := ⟨[("first", [("list", .intArray [1, 2])])], "one.ini", false⟩

theorem keeps_iff_oneList : oneList.Keeps listKeyFile "first" "list" (.intArray [3]) :=
  (keeps_iff listKeyFile_laws oneList "first" "list" (v := .intArray [3]) trivial).mpr
    (.inl ⟨by decide, by simp [IniValue.Fits]⟩)

theorem keeps_fails_empty :
    KeyFileLaws listKeyFile ∧ ¬ ∀ (p : IniParser ListKeyFile) (group key : Text) (v : IniValue),
      v.NulFree → p.Keeps listKeyFile group key v := by
  refine ⟨listKeyFile_laws, fun hall => ?_⟩
  -- the empty vector leaves the old list in place
  have hkeeps := hall oneList "first" "list" (.intArray []) trivial
  exact absurd hkeeps.1.2 (by decide)

end IniParser

end LomiriApi
