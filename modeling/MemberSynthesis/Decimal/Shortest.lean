/-!
# Shortest decimals

A floating-point number stands for all the reals that are rounded to it. Of the decimals among them
those with the fewest digits are the **shortest**, and the one of these that is nearest to the
number itself is the decimal by which it is known.

Nothing here is computed in floating point. A number is taken apart into its bits, and the reals
that are rounded to it become an interval whose ends are multiples of a power of two. A decimal
grid, the multiples of a power of ten, is compared with that interval by naturals alone. The grids
are tried from the coarsest on, so the first that meets the interval has the fewest digits.
-/

set_option autoImplicit false

namespace MemberSynthesis

/-- The decimal `digits * 10 ^ exponent`. -/
structure Decimal where
  digits : Nat
  exponent : Int
  deriving DecidableEq, Repr

/-- The magnitude `significand * 2 ^ exponent` of a finite floating-point number. -/
structure Magnitude where
  significand : Nat
  exponent : Int
  /-- Whether the next smaller magnitude is half as far away as the next greater one. -/
  narrowBelow : Bool
  deriving DecidableEq, Repr

namespace Magnitude

/-- The magnitude of a finite floating-point number. -/
def ofFloat (x : Float) : Magnitude :=
  let bits := x.toBits.toNat
  let fraction := bits % Nat.pow 2 52
  let biased := bits / Nat.pow 2 52 % Nat.pow 2 11
  if biased = 0 then ⟨fraction, -1074, false⟩
  else ⟨Nat.pow 2 52 + fraction, Int.ofNat biased - 1075, fraction = 0 ∧ 1 < biased⟩

/-! ## The interval of the reals that are rounded to a number

Its ends are counted in quarters of the last place, of which the number itself has four for each
unit of its significand. -/

/-- The number itself. -/
def middle (m : Magnitude) : Nat := 4 * m.significand

/-- The lower end, halfway to the next smaller magnitude. -/
def lower (m : Magnitude) : Nat := m.middle - if m.narrowBelow then 1 else 2

/-- The upper end, halfway to the next greater magnitude. -/
def upper (m : Magnitude) : Nat := m.middle + 2

/-- The weight of a quarter when it is compared with multiples of `10 ^ exponent`. -/
def quarterWeight (m : Magnitude) (exponent : Int) : Nat :=
  Nat.pow 2 (m.exponent - 2).toNat * Nat.pow 10 (-exponent).toNat

/-- The weight of `10 ^ exponent` when its multiples are compared with quarters. -/
def gridWeight (m : Magnitude) (exponent : Int) : Nat :=
  Nat.pow 2 (2 - m.exponent).toNat * Nat.pow 10 exponent.toNat

/-- Whether a decimal is rounded to the number. The ends of the interval are, just when the
significand is even. -/
def covers (m : Magnitude) (decimal : Decimal) : Bool :=
  let point := decimal.digits * m.gridWeight decimal.exponent
  let lower := m.lower * m.quarterWeight decimal.exponent
  let upper := m.upper * m.quarterWeight decimal.exponent
  if m.significand % 2 = 0 then lower ≤ point && point ≤ upper else lower < point && point < upper

/-! ## The shortest decimal -/

/-- Of the multiples of `10 ^ exponent` that are rounded to the number the nearest one, and of two
equally near ones the even one. Only the two multiples around the number can be the nearest. -/
def onGrid? (m : Magnitude) (exponent : Int) : Option Decimal :=
  let middle := m.middle * m.quarterWeight exponent
  let grid := m.gridWeight exponent
  let below : Decimal := ⟨middle / grid, exponent⟩
  let above : Decimal := ⟨middle / grid + 1, exponent⟩
  match m.covers below, m.covers above with
  | false, false => none
  | true, false => some below
  | false, true => some above
  | true, true =>
    let remainder := middle % grid
    if 2 * remainder < grid ∨ 2 * remainder = grid ∧ below.digits % 2 = 0 then some below
    else some above

/-- A decimal found on a grid is rounded to the number. -/
theorem covers_of_onGrid? {m : Magnitude} {exponent : Int} {decimal : Decimal}
    (h : m.onGrid? exponent = some decimal) : m.covers decimal := by
  simp only [onGrid?] at h
  split at h
  · cases h
  · rename_i hbelow _
    cases h
    exact hbelow
  · rename_i habove
    cases h
    exact habove
  · rename_i hbelow habove
    split at h
    · cases h
      exact hbelow
    · cases h
      exact habove

/-- The shortest decimal of a magnitude other than zero. No magnitude reaches beyond the grid of
`10 ^ 308`, and the grid of `10 ^ (-324)` is finer than any interval. -/
def shortest (m : Magnitude) : Decimal :=
  ((List.range 633).findSome? fun step => m.onGrid? (308 - Int.ofNat step)).getD ⟨0, 0⟩

end Magnitude

end MemberSynthesis
