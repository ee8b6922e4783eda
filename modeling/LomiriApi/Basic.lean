import Mathlib.Data.List.TakeWhile

/-!
# Texts

`std::string` values are lists of characters (`Text`); a string literal coerces
to its characters. Characters are Unicode scalars, so every `Text` is valid
UTF-8. Where it matters what bytes a string has, it is a list of bytes (`Bytes`).
-/

namespace LomiriApi

/-- A `std::string`. -/
abbrev Text := List Char

instance : Coe String Text := ⟨String.toList⟩

/-- A string of bytes, where the bytes matter. -/
abbrev Bytes := List UInt8

/-- An ASCII literal. -/
instance : Coe String Bytes := ⟨fun s => s.toList.map Char.toUInt8⟩

/-- The C string that `s.c_str()` is read as: `s` up to its first NUL. -/
def cStr (s : Text) : Text := s.takeWhile (· != '\x00')

/-- `s` has no embedded NUL. -/
def NulFree (s : Text) : Prop := '\x00' ∉ s

instance (s : Text) : Decidable (NulFree s) := inferInstanceAs (Decidable (_ ∉ _))

/-- A text without NUL survives the trip through `c_str()`. -/
theorem cStr_of_nulFree {s : Text} (h : NulFree s) : cStr s = s := by
  refine List.takeWhile_eq_self_iff.mpr fun c hc => ?_
  simpa using fun heq : c = '\x00' => h (heq ▸ hc)

/-- `std::to_string` on a non-negative integer. -/
def decimal (n : Nat) : Text := Nat.toDigits 10 n

/-- `std::to_string(int)`. -/
def decimalInt : Int → Text
  | .ofNat n => decimal n
  | .negSucc n => '-' :: decimal (n + 1)

end LomiriApi
