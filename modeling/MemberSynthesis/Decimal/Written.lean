import MemberSynthesis.Decimal.Shortest
import MemberSynthesis.Text.Basic

/-!
# Written decimals

How a message shows a floating-point number: by its shortest decimal, with the digits in their
places unless that takes too many zeros, and with a power of ten otherwise. A point or a power
always tells it from an integer. What is not a number, or not a finite one, is shown by a word, and
a zero keeps its sign.
-/

set_option autoImplicit false

namespace MemberSynthesis

namespace Decimal

/-- A run of zeros. -/
def zeros (count : Nat) : Text := List.replicate count (CodePoint.scalar '0')

/-- The digits in their places, given the place of the first digit. Zeros fill the places up to the
point. -/
def positional (digits : Text) (exponent first : Int) : Text :=
  if 0 ≤ exponent then digits ++ zeros exponent.toNat ++ ".0"
  else if 0 ≤ first then
    let whole : Text := digits.take (first.toNat + 1)
    let fraction : Text := digits.drop (first.toNat + 1)
    whole ++ "." ++ fraction
  else "0." ++ zeros (-first - 1).toNat ++ digits

/-- The first digit, the others after a point, and the place of the first digit as a power of ten,
with a sign and two digits at least. -/
def scientific (digits : Text) (first : Int) : Text :=
  let leading : Text := digits.take 1
  let others : Text := digits.drop 1
  let fraction : Text := if others = [] then [] else "." ++ others
  let sign : Text := if first < 0 then "-" else "+"
  let power := Text.ofNat first.natAbs
  leading ++ fraction ++ "e" ++ sign ++ zeros (2 - power.length) ++ power

/-- A decimal whose first digit is not zero. From the seventeenth place before the point on, and
from the fifth behind it, a power of ten is written. -/
def written (decimal : Decimal) : Text :=
  let digits := Text.ofNat decimal.digits
  let first := decimal.exponent + digits.length - 1
  if -4 ≤ first ∧ first < 16 then positional digits decimal.exponent first
  else scientific digits first

end Decimal

/-- A floating-point number as messages show it. -/
def Text.ofFloat (x : Float) : Text :=
  if x.isNaN then "nan"
  else
    let magnitude : Text :=
      if x.isInf then "inf"
      else if x == 0 then "0.0"
      else (Magnitude.ofFloat x).shortest.written
    -- The sign is the topmost bit, which zero has too.
    if x.toBits.toNat < Nat.pow 2 63 then magnitude else "-" ++ magnitude

end MemberSynthesis
