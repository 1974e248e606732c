import Mathlib.Data.UInt

/-!
# UTF-8 text

The decoder of `utf8.h` and the validator of `utf8.c`, over the bytes that remain to be read. The
decoder answers the scalar and how many bytes it took; on malformed bytes it takes one and answers
the replacement scalar.
-/

namespace Astra

abbrev astraUtf8Replacement : UInt32 := 0xfffd

/-- The low bits of a byte, as wide as the scalars they become part of. -/
def lowBits (byte mask : UInt8) : UInt32 := (byte &&& mask).toUInt32

/-- `(byte & 0xc0) == 0x80`. -/
def continues (byte : UInt8) : Bool := byte &&& 0xc0 == 0x80

def astraUtf8Decode : List UInt8 → UInt32 × ℕ
  | [] => (astraUtf8Replacement, 0)
  | first :: rest =>
    if first < 0x80 then (first.toUInt32, 1)
    else if first ≥ 0xc2 ∧ first ≤ 0xdf then
      match rest with
      | b1 :: _ =>
        if continues b1 then (lowBits first 0x1f <<< 6 ||| lowBits b1 0x3f, 2)
        else (astraUtf8Replacement, 1)
      | [] => (astraUtf8Replacement, 1)
    else if first ≥ 0xe0 ∧ first ≤ 0xef then
      match rest with
      | b1 :: b2 :: _ =>
        if continues b1 ∧ continues b2 ∧ ¬(first = 0xe0 ∧ b1 < 0xa0) ∧
            ¬(first = 0xed ∧ b1 ≥ 0xa0) then
          (lowBits first 0x0f <<< 12 ||| lowBits b1 0x3f <<< 6 ||| lowBits b2 0x3f, 3)
        else (astraUtf8Replacement, 1)
      | _ => (astraUtf8Replacement, 1)
    else if first ≥ 0xf0 ∧ first ≤ 0xf4 then
      match rest with
      | b1 :: b2 :: b3 :: _ =>
        if continues b1 ∧ continues b2 ∧ continues b3 ∧ ¬(first = 0xf0 ∧ b1 < 0x90) ∧
            ¬(first = 0xf4 ∧ b1 ≥ 0x90) then
          (lowBits first 0x07 <<< 18 ||| lowBits b1 0x3f <<< 12 ||| lowBits b2 0x3f <<< 6 |||
            lowBits b3 0x3f, 4)
        else (astraUtf8Replacement, 1)
      | _ => (astraUtf8Replacement, 1)
    else (astraUtf8Replacement, 1)

/-- The width of the scalar the bytes start with, `none` on malformed bytes. The replacement
scalar is taken for an answer only when the bytes spell it. -/
def scalarAt (bytes : List UInt8) : Option ℕ :=
  let (scalar, consumed) := astraUtf8Decode bytes
  if consumed = 0 ∨ (scalar = astraUtf8Replacement ∧
      ¬(consumed = 3 ∧ bytes.take 3 = [0xef, 0xbf, 0xbd])) then none
  else some consumed

/-- The validator with no flags: a NUL is refused. The fuel is the number of bytes; every round
takes at least one. -/
def utf8Validate : ℕ → List UInt8 → Bool
  | _, [] => true
  | 0, _ :: _ => false
  | fuel + 1, b :: bytes =>
    if b = 0 then false
    else match scalarAt (b :: bytes) with
      | none => false
      | some width => utf8Validate fuel ((b :: bytes).drop width)

def astraUtf8Validate (bytes : List UInt8) : Bool := utf8Validate bytes.length bytes

end Astra
