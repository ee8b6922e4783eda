import LomiriApi.Basic
import Mathlib.Algebra.Group.Int.Defs

/-!
# D-Bus names (Dbus.cpp)

Here strings are byte strings. Whether plain `char` is signed depends on the platform;
`charSigned` says so.

- `dbusSanitizeStr`: `dbus_sanitize_str`.
- `dbusSanitizedPath`: `dbus_sanitized_path`.
-/

namespace LomiriApi

namespace Dbus

def underscore : UInt8 := '_'.toUInt8

def slash : UInt8 := '/'.toUInt8

/-- `std::isalnum(ch, std::locale::classic())` -/
def isalnum (ch : UInt8) : Bool :=
  ('0'.toUInt8 ≤ ch && ch ≤ '9'.toUInt8) || ('A'.toUInt8 ≤ ch && ch ≤ 'Z'.toUInt8) ||
    ('a'.toUInt8 ≤ ch && ch ≤ 'z'.toUInt8)

/-- The `int` that a `char` is promoted to. Whether `char` is signed is up to the platform,
so it is a parameter. -/
def promote (charSigned : Bool) (ch : UInt8) : Int :=
  if charSigned && 0x80 ≤ ch then (ch.toNat : Int) - 256 else ch.toNat

/-- `%02x`: the `int` is read as a 32-bit `unsigned int`. For a negative one that gives
eight digits, where two were meant. -/
def format02x (n : Int) : Bytes :=
  (List.leftpad 2 '0' (Nat.toDigits 16 (n % 2 ^ 32).toNat)).map Char.toUInt8

/-- What the loop appends for one character. -/
def appended (charSigned : Bool) (ch : UInt8) : Bytes :=
  if isalnum ch then [ch]
  else underscore :: format02x (promote charSigned ch)

/-- `dbus_sanitize_str(str)` -/
def dbusSanitizeStr (charSigned : Bool) (str : Bytes) : Bytes :=
  str.foldl (fun output ch => output ++ appended charSigned ch) []

/-- `dbus_sanitized_path(base, path)`; `base` is not empty. -/
def dbusSanitizedPath (charSigned : Bool) (base path : Bytes) : Bytes :=
  let output : Bytes := if base.head? ≠ some slash then [slash] else []
  let output := output ++ base
  let output := if output.getLast? ≠ some slash then output ++ [slash] else output
  output ++ dbusSanitizeStr charSigned path

/-- `dbus_sanitized_path(str)` -/
def dbusSanitizedPathAtRoot (charSigned : Bool) (str : Bytes) : Bytes :=
  dbusSanitizedPath charSigned "/" str

end Dbus

end LomiriApi
