import LomiriApi.Dbus.Basic
import LomiriApi.Lib.PrefixCode

/-!
# The escapes of `dbus_sanitize_str`

- `appended_eq`: what the loop appends, digit by digit. Where `char` is signed, the
  escape of a byte from `0x80` on has eight digits, the first six of which are `f`.
- `prefixCode_appended`: the escapes, of one width or the other, are a prefix code.
- `dbusSanitizeStr_injective`: hence two strings have the same result only if they are
  the same.
- `standardEscape_iff`: the result is the escape with two digits exactly when `char` is
  unsigned or the string is ASCII.
-/

namespace LomiriApi

open Lib

namespace Dbus

/-! ## Hexadecimal digits -/

/-- The character that `%x` prints for a number below 16. -/
def hexDigit (n : Nat) : UInt8 := (Nat.digitChar n).toUInt8

/-- Different numbers have different digits. -/
theorem hexDigit_inj {m n : Nat} (hm : m < 16) (hn : n < 16) (h : hexDigit m = hexDigit n) :
    m = n := by
  have hall : ∀ m < 16, ∀ n < 16, hexDigit m = hexDigit n → m = n := by decide
  exact hall m hm n hn h

/-- Digits are alphanumeric, so an escape is told from the character behind it by its
length only. -/
theorem isalnum_hexDigit {n : Nat} (hn : n < 16) : isalnum (hexDigit n) = true := by
  have hall : ∀ n < 16, isalnum (hexDigit n) = true := by decide
  exact hall n hn

/-- The two digits of a byte. -/
def twoDigits (b : UInt8) : Bytes := [hexDigit (b.toNat / 16), hexDigit (b.toNat % 16)]

/-- The last two digits tell the byte. -/
theorem twoDigits_inj {a b : UInt8} (h : twoDigits a = twoDigits b) : a = b := by
  obtain ⟨hhigh, hlow⟩ := List.cons.inj h
  have ha : a.toNat < 256 := a.toNat_lt
  have hb : b.toNat < 256 := b.toNat_lt
  have hdiv : a.toNat / 16 = b.toNat / 16 := hexDigit_inj (by omega) (by omega) hhigh
  have hmod : a.toNat % 16 = b.toNat % 16 :=
    hexDigit_inj (by omega) (by omega) (List.cons.inj hlow).1
  exact UInt8.toNat_inj.mp (by omega)

/-- `%x` of a number with more than two digits ends in those of its lowest byte. -/
theorem toDigits_append_two {m n : Nat} (hm : 0 < m) (hn : n < 256) :
    Nat.toDigits 16 (256 * m + n) =
      Nat.toDigits 16 m ++ [Nat.digitChar (n / 16), Nat.digitChar (n % 16)] := by
  rw [Nat.toDigits_of_base_le (by omega) (by omega),
    Nat.toDigits_of_base_le (by omega) (by omega : 16 ≤ (256 * m + n) / 16), List.append_assoc,
    show (256 * m + n) / 16 / 16 = m by omega,
    show (256 * m + n) / 16 % 16 = n / 16 by omega,
    show (256 * m + n) % 16 = n % 16 by omega]
  rfl

/-- And `%02x` of a byte has exactly two digits. -/
theorem leftpad_toDigits {n : Nat} (hn : n < 256) :
    List.leftpad 2 '0' (Nat.toDigits 16 n) = [Nat.digitChar (n / 16), Nat.digitChar (n % 16)] := by
  by_cases h : n < 16
  · rw [Nat.toDigits_of_lt_base h, show n / 16 = 0 by omega, show n % 16 = n by omega]
    rfl
  · rw [Nat.toDigits_of_base_le (by omega) (by omega), Nat.toDigits_of_lt_base (by omega)]
    rfl

/-! ## What the loop appends -/

/-- The digits of a negative `char` in front of its own two: it is promoted to an `int`
whose upper three bytes are all ones. -/
def signDigits (charSigned : Bool) (ch : UInt8) : Bytes :=
  if charSigned && 0x80 ≤ ch then List.replicate 6 (hexDigit 15) else []

/-- What `%02x` prints of a character, whether `char` is signed or not: perhaps six times
`f`, then the two digits of the byte. -/
theorem format02x_promote (charSigned : Bool) (ch : UInt8) :
    format02x (promote charSigned ch) = signDigits charSigned ch ++ twoDigits ch := by
  have hlt : ch.toNat < 256 := ch.toNat_lt
  unfold format02x promote signDigits
  split
  case isTrue h =>
    have hge : 0x80 ≤ ch := of_decide_eq_true (Bool.and_eq_true_iff.mp h).2
    have hnat : (((ch.toNat : Int) - 256) % 2 ^ 32).toNat = 256 * 0xffffff + ch.toNat := by omega
    rw [hnat, toDigits_append_two (by omega) hlt]
    rfl
  case isFalse =>
    have hnat : ((ch.toNat : Int) % 2 ^ 32).toNat = ch.toNat := by omega
    rw [hnat, leftpad_toDigits hlt]
    rfl

/-- What the loop appends for one character. -/
theorem appended_eq (charSigned : Bool) (ch : UInt8) :
    appended charSigned ch =
      if isalnum ch then [ch]
      else underscore :: (signDigits charSigned ch ++ twoDigits ch) := by
  rw [appended, format02x_promote]

/-- A loop that appends is a `flatMap`. -/
theorem foldl_append {α β : Type} (f : α → List β) (s : List α) (output : List β) :
    s.foldl (fun output a => output ++ f a) output = output ++ s.flatMap f := by
  induction s generalizing output with
  | nil => exact (List.append_nil output).symm
  | cons a s ih => rw [List.foldl_cons, ih, List.append_assoc, List.flatMap_cons]

/-- So the sanitized string is an encoding, character by character. -/
theorem dbusSanitizeStr_eq (charSigned : Bool) (str : Bytes) :
    dbusSanitizeStr charSigned str = str.flatMap (appended charSigned) :=
  foldl_append _ str []

/-! ## The escapes are a prefix code -/

/-- The underscore itself is escaped, so it can mark an escape. -/
theorem isalnum_underscore : isalnum underscore = false := by decide

/-- The character is printed with eight digits. -/
def Wide (charSigned : Bool) (ch : UInt8) : Prop := charSigned = true ∧ 0x80 ≤ ch

/-- Eight digits, of which the first six are `f`. -/
theorem signDigits_of_wide {charSigned : Bool} {ch : UInt8} (h : Wide charSigned ch) :
    signDigits charSigned ch = List.replicate 6 (hexDigit 15) := by
  rw [signDigits, if_pos (by simpa [Wide] using h)]

theorem signDigits_of_not_wide {charSigned : Bool} {ch : UInt8} (h : ¬ Wide charSigned ch) :
    signDigits charSigned ch = [] := by
  rw [signDigits, if_neg (by simpa [Wide] using h)]

/-- An escape of eight digits begins with `f`, one of two digits with a digit below 8, or
all escapes have two. -/
theorem wide_iff_of_digits {charSigned : Bool} {a b : UInt8} {s t : Bytes}
    (h : signDigits charSigned a ++ (twoDigits a ++ s) =
      signDigits charSigned b ++ (twoDigits b ++ t)) (ha : Wide charSigned a) :
    Wide charSigned b := by
  by_contra hb
  rw [signDigits_of_wide ha, signDigits_of_not_wide hb] at h
  have hdigit : hexDigit 15 = hexDigit (b.toNat / 16) := (List.cons.inj h).1
  have hlt : b.toNat < 0x80 := by
    have : ¬ 0x80 ≤ b := fun hge => hb ⟨ha.1, hge⟩
    exact UInt8.lt_iff_toNat_lt.mp (UInt8.not_le.mp this)
  have := hexDigit_inj (by omega) (by omega) hdigit
  omega

/-- An escape is read back, whatever follows it. Escapes of two and of eight digits do not
get mixed up, as `wide_iff_of_digits` tells which of the two it is. -/
theorem escape_inj {charSigned : Bool} {a b : UInt8} {s t : Bytes}
    (h : signDigits charSigned a ++ (twoDigits a ++ s) =
      signDigits charSigned b ++ (twoDigits b ++ t)) : a = b := by
  have hsign : signDigits charSigned a = signDigits charSigned b := by
    by_cases ha : Wide charSigned a
    · rw [signDigits_of_wide ha, signDigits_of_wide (wide_iff_of_digits h ha)]
    · have hb : ¬ Wide charSigned b := fun hb => ha (wide_iff_of_digits h.symm hb)
      rw [signDigits_of_not_wide ha, signDigits_of_not_wide hb]
  rw [hsign] at h
  exact twoDigits_inj (List.append_inj_left (List.append_cancel_left h) rfl)

/-- The characters as they are and the escapes together are a prefix code, as the
underscore is not alphanumeric. -/
theorem prefixCode_appended (charSigned : Bool) : PrefixCode (appended charSigned) where
  ne_nil ch := by
    unfold appended
    split <;> exact List.cons_ne_nil _ _
  head a b s t h := by
    rw [appended_eq, appended_eq] at h
    cases ha : isalnum a with
    | true =>
      cases hb : isalnum b with
      | true =>
        rw [ha, hb] at h
        exact (List.cons.inj h).1
      | false =>
        rw [ha, hb] at h
        have heq : a = underscore := (List.cons.inj h).1
        rw [heq, isalnum_underscore] at ha
        cases ha
    | false =>
      cases hb : isalnum b with
      | true =>
        rw [ha, hb] at h
        have heq : underscore = b := (List.cons.inj h).1
        rw [← heq, isalnum_underscore] at hb
        cases hb
      | false =>
        rw [ha, hb] at h
        have hdigits := (List.cons.inj h).2
        rw [List.append_eq, List.append_eq, List.append_assoc, List.append_assoc] at hdigits
        exact escape_inj hdigits

/-! ## No two strings have the same result -/

/-- Nothing else is appended but what may stand in an object path. -/
theorem appended_chars {charSigned : Bool} {ch c : UInt8} (hc : c ∈ appended charSigned ch) :
    isalnum c = true ∨ c = underscore := by
  have hlt : ch.toNat < 256 := ch.toNat_lt
  rw [appended_eq] at hc
  split at hc
  case isTrue halnum =>
    rw [List.mem_singleton.mp hc]
    exact .inl halnum
  case isFalse =>
    rcases List.mem_cons.mp hc with rfl | hdigit
    · exact .inr rfl
    · refine .inl ?_
      rcases List.mem_append.mp hdigit with hsign | htwo
      · unfold signDigits at hsign
        split at hsign
        · rw [List.eq_of_mem_replicate hsign]
          exact isalnum_hexDigit (by omega)
        · exact absurd hsign List.not_mem_nil
      · simp only [twoDigits, List.mem_cons, List.not_mem_nil, or_false] at htwo
        rcases htwo with rfl | rfl
        · exact isalnum_hexDigit (by omega)
        · exact isalnum_hexDigit (by omega)

/-- And so it is for the whole string. -/
theorem dbusSanitizeStr_chars {charSigned : Bool} {str : Bytes} {c : UInt8}
    (hc : c ∈ dbusSanitizeStr charSigned str) : isalnum c = true ∨ c = underscore := by
  rw [dbusSanitizeStr_eq] at hc
  obtain ⟨ch, -, hmem⟩ := List.mem_flatMap.mp hc
  exact appended_chars hmem

/-- Different strings are sanitized to different ones, as `PrefixCode.flatMap_injective`
says of any prefix code. -/
theorem dbusSanitizeStr_inj {charSigned : Bool} {s t : Bytes}
    (h : dbusSanitizeStr charSigned s = dbusSanitizeStr charSigned t) : s = t := by
  rw [dbusSanitizeStr_eq, dbusSanitizeStr_eq] at h
  exact (prefixCode_appended charSigned).flatMap_injective h

/-- **Sanitising is collision free**, on every platform, and gives letters, digits and
underscores. -/
theorem dbusSanitizeStr_injective (charSigned : Bool) :
    Function.Injective (dbusSanitizeStr charSigned) ∧
      ∀ str, ∀ c ∈ dbusSanitizeStr charSigned str, isalnum c = true ∨ c = underscore :=
  ⟨fun _ _ => dbusSanitizeStr_inj, fun _ _ => dbusSanitizeStr_chars⟩

/-! ## The escape with two digits -/

/-- The escape of one byte. -/
def escape (b : UInt8) : Bytes := if isalnum b then [b] else underscore :: twoDigits b

/-- The value of a hexadecimal digit. -/
def hexValue (c : UInt8) : Option Nat :=
  (List.range 16).find? fun n => hexDigit n == c

/-- `_` and two digits are one byte, every other character is itself. -/
def decode : Bytes → Bytes
  | [] => []
  | c :: s =>
    if c = underscore then
      match s with
      | c₁ :: c₂ :: s =>
        match hexValue c₁, hexValue c₂ with
        | some m, some n => UInt8.ofNat (16 * m + n) :: decode s
        | _, _ => c :: decode (c₁ :: c₂ :: s)
      | s => c :: decode s
    else c :: decode s

/-- The result is the standard escape, which the decoder reads. -/
def StandardEscape (charSigned : Bool) (str : Bytes) : Prop :=
  dbusSanitizeStr charSigned str = str.flatMap escape ∧
    decode (dbusSanitizeStr charSigned str) = str

theorem hexValue_hexDigit {n : Nat} (hn : n < 16) : hexValue (hexDigit n) = some n := by
  have hall : ∀ n < 16, hexValue (hexDigit n) = some n := by decide
  exact hall n hn

/-- The decoder takes one escape off the front. -/
theorem decode_escape (b : UInt8) (rest : Bytes) :
    decode (escape b ++ rest) = b :: decode rest := by
  have hlt : b.toNat < 256 := b.toNat_lt
  unfold escape
  split
  case isTrue halnum =>
    have hne : b ≠ underscore := by
      rintro rfl
      rw [isalnum_underscore] at halnum
      cases halnum
    show decode (b :: rest) = _
    rw [decode.eq_def]
    simp only [if_neg hne]
  case isFalse =>
    show decode (underscore :: hexDigit (b.toNat / 16) :: hexDigit (b.toNat % 16) :: rest) = _
    rw [decode.eq_def]
    simp only [if_true, hexValue_hexDigit (by omega : b.toNat / 16 < 16),
      hexValue_hexDigit (by omega : b.toNat % 16 < 16)]
    rw [Nat.div_add_mod, UInt8.ofNat_toNat]

/-- What is a letter or a digit is ASCII. -/
theorem lt_of_isalnum {b : UInt8} (h : isalnum b = true) : b < 0x80 := by
  simp only [isalnum, Bool.or_eq_true, Bool.and_eq_true, decide_eq_true_eq,
    UInt8.le_iff_toNat_le] at h
  rw [UInt8.lt_iff_toNat_lt]
  rcases h with (⟨-, h⟩ | ⟨-, h⟩) | ⟨-, h⟩
  · exact Nat.lt_of_le_of_lt h (by decide)
  · exact Nat.lt_of_le_of_lt h (by decide)
  · exact Nat.lt_of_le_of_lt h (by decide)

/-- Where `char` is unsigned or the byte below 0x80, the code appends the standard
escape. -/
theorem appended_eq_escape {charSigned : Bool} {ch : UInt8} (h : ¬ Wide charSigned ch) :
    appended charSigned ch = escape ch := by
  rw [appended_eq, signDigits_of_not_wide h, List.nil_append, escape]

/-- A wide escape has six characters more. -/
theorem length_appended (charSigned : Bool) (ch : UInt8) :
    (appended charSigned ch).length =
      (escape ch).length + if charSigned && 0x80 ≤ ch then 6 else 0 := by
  split
  case isTrue h =>
    have hwide : Wide charSigned ch := by simpa [Wide] using h
    have hnot : isalnum ch = false := by
      rw [← Bool.not_eq_true]
      exact fun halnum => UInt8.not_lt.mpr hwide.2 (lt_of_isalnum halnum)
    rw [appended_eq, escape, hnot, signDigits_of_wide hwide]
    rfl
  case isFalse h =>
    have hnot : ¬ Wide charSigned ch := by simpa [Wide] using h
    rw [appended_eq_escape hnot, Nat.add_zero]

/-- Every character with eight digits makes the result longer by six than it should be; so
it is standard only without them. -/
theorem length_dbusSanitizeStr (charSigned : Bool) (str : Bytes) :
    (dbusSanitizeStr charSigned str).length =
      (str.flatMap escape).length + 6 * str.countP fun ch => charSigned && 0x80 ≤ ch := by
  rw [dbusSanitizeStr_eq]
  induction str with
  | nil => rfl
  | cons ch str ih =>
    rw [List.flatMap_cons, List.flatMap_cons, List.length_append, List.length_append, ih,
      length_appended, List.countP_cons]
    split <;> omega

/-- The result is the concatenation of the escapes with two digits exactly if no
character is negative. -/
theorem dbusSanitizeStr_eq_escape_iff (charSigned : Bool) (str : Bytes) :
    dbusSanitizeStr charSigned str = str.flatMap escape ↔
      (charSigned = true → ∀ b ∈ str, b < 0x80) := by
  constructor
  · rintro h rfl b hb
    have hlen := length_dbusSanitizeStr true str
    rw [h] at hlen
    have hzero : str.countP (fun ch => true && 0x80 ≤ ch) = 0 := by omega
    have hnot := List.countP_eq_zero.mp hzero b hb
    simpa using hnot
  · intro h
    rw [dbusSanitizeStr_eq]
    refine List.flatMap_congr fun b hb => appended_eq_escape ?_
    exact fun hwide => UInt8.not_lt.mpr hwide.2 (h hwide.1 b hb)

/-- **The escape has two digits** exactly where `char` is unsigned or the string is
ASCII; and exactly for ASCII strings the platforms agree. -/
theorem standardEscape_iff (str : Bytes) :
    (∀ charSigned, StandardEscape charSigned str ↔
      (charSigned = true → ∀ b ∈ str, b < 0x80)) ∧
    (dbusSanitizeStr true str = dbusSanitizeStr false str ↔ ∀ b ∈ str, b < 0x80) := by
  constructor
  · intro charSigned
    rw [← dbusSanitizeStr_eq_escape_iff]
    refine ⟨And.left, fun h => ⟨h, ?_⟩⟩
    rw [h]
    exact decode_flatMap (by rw [decode]) fun b _ rest => decode_escape b rest
  · rw [(dbusSanitizeStr_eq_escape_iff false str).mpr nofun, dbusSanitizeStr_eq_escape_iff]
    exact ⟨fun h => h rfl, fun h _ => h⟩

example : dbusSanitizeStr true "foo/bar.baz" = ("foo_2fbar_2ebaz" : Bytes) := by decide

/-- `é` in UTF-8, where `char` is signed. -/
theorem e_acute_not_standard :
    dbusSanitizeStr true [0xc3, 0xa9] = ("_ffffffc3_ffffffa9" : Bytes) ∧
      ¬ StandardEscape true [0xc3, 0xa9] ∧
      dbusSanitizeStr false [0xc3, 0xa9] = ("_c3_a9" : Bytes) := by
  refine ⟨by decide, ?_, by decide⟩
  rintro ⟨h, -⟩
  exact absurd h (by decide)

end Dbus

end LomiriApi
