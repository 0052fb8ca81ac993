import EquationFigure.Text.Basic

/-!
# Doubles as whole numbers

The least positive double, 2⁻¹⁰⁷⁴, divides every finite double, so a finite double is a whole
number of such *units*.  Measured in units, decoding, rounding and remainders are exact arithmetic
on natural numbers, with no exponent that could turn negative.

* `Magnitude` — a finite double without its sign, as `significand * 2 ^ shift` units.
  `Magnitude.ofBits` decodes it from the bits.
* `nearestBits num den` — the bits of the double nearest to `num / den` units, a half going to the
  even significand.  The bits below infinity are in the same order as the doubles they stand for,
  so one formula covers subnormal and normal results and the carry into the next exponent.
* `remainder` — the exact remainder of a division that truncates its quotient.
-/

set_option autoImplicit false

namespace EquationFigure

namespace Binary

/-! ## Decoding -/

/-- The units in one: a unit is the least positive double, `2 ^ (-1074)`. -/
def unitsPerOne : Nat := Nat.pow 2 1074

/-- A finite double without its sign, `significand * 2 ^ shift` units. -/
structure Magnitude where
  /-- The significand with its leading one, below `2 ^ 53`. -/
  significand : Nat
  /-- The power of two that the significand is multiplied by. -/
  shift : Nat
deriving DecidableEq, Repr

/-- Decodes the bits of a finite double whose sign bit is zero: eleven bits of exponent above
fifty-two bits of fraction, an exponent of zero marking the doubles without a leading one. -/
def Magnitude.ofBits (bits : Nat) : Magnitude :=
  let exponent := bits / Nat.pow 2 52
  let fraction := bits % Nat.pow 2 52
  if exponent = 0 then ⟨fraction, 0⟩ else ⟨Nat.pow 2 52 + fraction, exponent - 1⟩

/-- The magnitude as a number of units. -/
def Magnitude.units (x : Magnitude) : Nat := x.significand * Nat.pow 2 x.shift

/-- Whether the double below is only half as far away as the double above, as it is at a power of
two among the normal doubles. -/
def Magnitude.narrowBelow (x : Magnitude) : Bool := x.significand == Nat.pow 2 52 && 0 < x.shift

/-! ## Rounding -/

/-- The whole number nearest to `num / den`, and the even one of two that are equally near. -/
def roundHalfEven (num den : Nat) : Nat :=
  let quotient := num / den
  let twice := 2 * (num % den)
  if twice < den ∨ (twice = den ∧ quotient % 2 = 0) then quotient else quotient + 1

/-- The bits of positive infinity, the least above those of the finite doubles. -/
def infinityBits : Nat := 0x7FF0000000000000

/-- The bits of the double nearest to `num / den` units.  A value in `[2 ^ 53, 2 ^ 54)` units is
rounded to a multiple of two units, one in `[2 ^ 54, 2 ^ 55)` to a multiple of four, and so on;
`shift * 2 ^ 52` puts the exponent into its place above the significand, whose leading one adds the
one by which a normal exponent is higher. -/
def nearestBits (num den : Nat) : Nat :=
  let shift := Nat.log2 (num / den) - 52
  min infinityBits (shift * Nat.pow 2 52 + roundHalfEven num (den * Nat.pow 2 shift))

/-! ## Signs -/

/-- The bits of a double without the sign bit. -/
def magnitudeBits (x : Float) : Nat := x.toBits.toNat % Nat.pow 2 63

/-- Whether the sign bit is set, as it is for the negative zero too. -/
def signBit (x : Float) : Bool := decide (Nat.pow 2 63 ≤ x.toBits.toNat)

/-- The magnitude of a finite double. -/
def magnitude (x : Float) : Magnitude := .ofBits (magnitudeBits x)

/-- The double with the given sign and the given bits below it. -/
def ofMagnitudeBits (negative : Bool) (bits : Nat) : Float :=
  Float.ofBits (UInt64.ofNat (if negative then Nat.pow 2 63 + bits else bits))

/-! ## Remainder -/

/-- The remainder `x - y * n`, where `n` is `x / y` without its fraction.  It is exact, lies nearer
to zero than `y` does and has the sign of `x`. -/
def remainder (x y : Float) : Float :=
  if x.isNaN || y.isNaN || x.isInf || y == 0 then 0 / 0
  else if y.isInf then x
  else ofMagnitudeBits (signBit x)
    (nearestBits ((magnitude x).units % (magnitude y).units) 1)

end Binary

end EquationFigure
