import EquationFigure.Decimal.Binary

/-!
# Decimals with an exponent

`scientificBits m e` is the double nearest to `m * 10 ^ e`.  An exponent can have more digits than
any power of ten that one would like to work out, so numbers far beyond the doubles on either side
are told by their number of digits alone.
-/

set_option autoImplicit false

namespace EquationFigure.Binary

/-- Every number below `10 ^ (-scientificReach)` is nearer to zero than to the least positive
double, and every number from `10 ^ scientificReach` on is beyond the greatest. -/
def scientificReach : Nat := 400

/-- The bits of the double nearest to `mantissa * 10 ^ exponent`. -/
def scientificBits (mantissa : Nat) (exponent : Int) : Nat :=
  if mantissa = 0 then 0
  else
    let digits := (Nat.toDigits 10 mantissa).length
    if digits + exponent < -scientificReach then 0
    else if digits + exponent > scientificReach then infinityBits
    else
      nearestBits (mantissa * Nat.pow 10 exponent.toNat * unitsPerOne)
        (Nat.pow 10 (-exponent).toNat)

end EquationFigure.Binary
