import MemberSynthesis.Text.Blank

/-!
# Hexadecimal numerals

The notation of the number in a `\u{…}` escape, read liberally. Blanks may surround it (the
information separators excepted), a sign may precede it and `0x` its digits; a single underscore may
stand between two digits and after `0x`; and the decimal digits of every script count as digits.

`value?` gives the number, which a sign can make negative, and `codePoint?` the code point with that
number, which exists for numbers from zero to `0x10FFFF` alone.
-/

set_option autoImplicit false

namespace MemberSynthesis

/-- The zeros of the decimal digits outside ASCII; each is followed by the nine other digits. -/
def wideDigitZeros : List Nat :=
  [0x660, 0x6F0, 0x7C0, 0x966, 0x9E6, 0xA66, 0xAE6, 0xB66, 0xBE6, 0xC66, 0xCE6, 0xD66, 0xDE6,
    0xE50, 0xED0, 0xF20, 0x1040, 0x1090, 0x17E0, 0x1810, 0x1946, 0x19D0, 0x1A80, 0x1A90, 0x1B50,
    0x1BB0, 0x1C40, 0x1C50, 0xA620, 0xA8D0, 0xA900, 0xA9D0, 0xA9F0, 0xAA50, 0xABF0, 0xFF10, 0x104A0,
    0x10D30, 0x11066, 0x110F0, 0x11136, 0x111D0, 0x112F0, 0x11450, 0x114D0, 0x11650, 0x116C0,
    0x11730, 0x118E0, 0x11950, 0x11C50, 0x11D50, 0x11DA0, 0x16A60, 0x16AC0, 0x16B50, 0x1D7CE,
    0x1D7D8, 0x1D7E2, 0x1D7EC, 0x1D7F6, 0x1E140, 0x1E2F0, 0x1E950, 0x1FBF0]

namespace CodePoint

/-- The value of a decimal digit of any script. -/
def decimalDigit? (c : CodePoint) : Option Nat :=
  if 0x30 ≤ c.toNat ∧ c.toNat ≤ 0x39 then some (c.toNat - 0x30)
  else (wideDigitZeros.find? fun z => z ≤ c.toNat && c.toNat ≤ z + 9).map (c.toNat - ·)

/-- The value of a hexadecimal digit: a decimal digit of any script or a letter from `a` to `f` in
either case. -/
def hexDigit? (c : CodePoint) : Option Nat :=
  if 0x61 ≤ c.toNat ∧ c.toNat ≤ 0x66 then some (c.toNat - 0x61 + 10)
  else if 0x41 ≤ c.toNat ∧ c.toNat ≤ 0x46 then some (c.toNat - 0x41 + 10)
  else c.decimalDigit?

/-- The blanks that may surround a numeral: all but the information separators. -/
def isNumeralBlank (c : CodePoint) : Bool :=
  c.isBlank && !(0x1C ≤ c.toNat && c.toNat ≤ 0x1F)

end CodePoint

namespace HexNumeral

/-- Reads digits onto the value of those before them. An underscore stands between two digits. -/
def digitsFrom? (value : Nat) : Text → Option Nat
  | [] => some value
  | c :: rest =>
    if c = '_' then
      match rest with
      | [] => none
      | d :: more => d.hexDigit?.bind fun digit => digitsFrom? (16 * value + digit) more
    else c.hexDigit?.bind fun digit => digitsFrom? (16 * value + digit) rest

/-- Reads digits, of which there has to be one at least. -/
def digits? : Text → Option Nat
  | [] => none
  | c :: rest => c.hexDigit?.bind fun digit => digitsFrom? digit rest

/-- Reads a numeral without blanks and sign. After `0x` an underscore may precede the digits. -/
def magnitude? : Text → Option Nat
  | c :: x :: rest =>
    if c.decimalDigit? = some 0 ∧ (x = 'x' ∨ x = 'X') then
      match rest with
      | .scalar '_' :: more => digits? more
      | _ => digits? rest
    else digits? (c :: x :: rest)
  | short => digits? short

/-- The value of a numeral. -/
def value? (numeral : Text) : Option Int :=
  match Text.strip CodePoint.isNumeralBlank numeral with
  | [] => none
  | c :: rest =>
    if c = '-' then (magnitude? rest).map fun n => -(n : Int)
    else if c = '+' then (magnitude? rest).map fun n => (n : Int)
    else (magnitude? (c :: rest)).map fun n => (n : Int)

/-- The code point that a numeral numbers. -/
def codePoint? (numeral : Text) : Option CodePoint :=
  match value? numeral with
  | some (.ofNat n) => CodePoint.ofNat? n
  | _ => none

end HexNumeral

end MemberSynthesis
