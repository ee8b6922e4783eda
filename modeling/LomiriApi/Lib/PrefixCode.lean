import Mathlib.Data.List.Basic
import Mathlib.Logic.Function.Basic

/-!
# Prefix codes

A code `f` maps symbols to codewords; a text is encoded by `flatMap f`.

- `PrefixCode f`: no codeword is empty, and a codeword in front of a text tells which
  symbol it is for.
- `PrefixCode.flatMap_injective`: then the encoding of a text determines the text.
- `decode_flatMap`: a decoder that takes off one codeword at a time decodes.
-/

namespace Lib

universe u v

variable {α : Type u} {β : Type v}

/-- No codeword is empty, and none is the beginning of another symbol's. So the end of a
codeword is seen without looking further, which is what unique decoding rests on. -/
structure PrefixCode (f : α → List β) : Prop where
  ne_nil : ∀ a, f a ≠ []
  head : ∀ a b s t, f a ++ s = f b ++ t → a = b

/-- Two texts with the same encoding are the same. -/
theorem PrefixCode.flatMap_injective {f : α → List β} (hf : PrefixCode f) :
    Function.Injective fun s : List α => s.flatMap f := by
  intro s
  induction s with
  | nil =>
    rintro (_ | ⟨b, t⟩) h
    · rfl
    · exact absurd (List.append_eq_nil_iff.mp h.symm).1 (hf.ne_nil b)
  | cons a s ih =>
    rintro (_ | ⟨b, t⟩) h
    · exact absurd (List.append_eq_nil_iff.mp h).1 (hf.ne_nil a)
    · have h' : f a ++ s.flatMap f = f b ++ t.flatMap f := h
      obtain rfl : a = b := hf.head a b _ _ h'
      rw [ih (List.append_cancel_left h')]

/-- The other way to injectivity: a decoder that takes one code off the front. -/
theorem decode_flatMap {f : α → List β} {decode : List β → List α} (hnil : decode [] = [])
    {s : List α} (hcons : ∀ a ∈ s, ∀ rest, decode (f a ++ rest) = a :: decode rest) :
    decode (s.flatMap f) = s := by
  induction s with
  | nil => exact hnil
  | cons a s ih =>
    rw [List.flatMap_cons, hcons a List.mem_cons_self,
      ih fun b hb => hcons b (List.mem_cons_of_mem a hb)]

end Lib
