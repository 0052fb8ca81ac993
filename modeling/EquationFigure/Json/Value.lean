import EquationFigure.Decimal.Numeral

/-!
# JSON values

A `Value` is read whole where the meaning of a part depends on a part that may come later.  Fields
of an object keep their order, and a name may occur twice.

* `Value.ofWhole` — the value of a whole number, kept apart from other numbers while it fits a
  machine word.
* `floatText` — a number as messages show it: with a point or an exponent always, and with an
  exponent when it is long.
-/

set_option autoImplicit false

namespace EquationFigure.Json

/-- A JSON value. -/
inductive Value where
  /-- The word `null`. -/
  | null
  /-- One of the words `true` and `false`. -/
  | bool (b : Bool)
  /-- A whole number between `-2 ^ 63` and `2 ^ 64 - 1`, written without point and exponent. -/
  | integer (n : Int)
  /-- Any other number. -/
  | float (x : Float)
  /-- A string. -/
  | string (t : Text)
  /-- A list of values. -/
  | array (items : List Value)
  /-- An object: names with values. -/
  | object (fields : List (Text × Value))

/-- The number as a double. -/
def floatOfInt (n : Int) : Float :=
  Binary.ofMagnitudeBits (n < 0) (Binary.nearestBits (n.natAbs * Binary.unitsPerOne) 1)

/-- The value of a whole number written without point and exponent.  What does not fit a machine
word is a double, and so is the negative zero. -/
def Value.ofWhole (negative : Bool) (n : Nat) : Value :=
  if negative then
    if 0 < n ∧ n ≤ Nat.pow 2 63 then .integer (-n)
    else .float (Binary.ofMagnitudeBits true (Binary.nearestBits (n * Binary.unitsPerOne) 1))
  else
    if n < Nat.pow 2 64 then .integer n else .float (floatOfInt n)

/-- The digits as one digit, a point and the rest. -/
def scientificDigits : Text → Text
  | [] => []
  | [d] => [d]
  | d :: rest => d :: '.' :: rest

/-- The exponent of a number, with its sign whatever it is. -/
def exponentText (exponent : Int) : Text :=
  (if 0 ≤ exponent then ['e', '+'] else ['e', '-']) ++ Nat.toDigits 10 exponent.natAbs

/-- A finite double in words: without an exponent from `10 ^ (-5)` on and below `10 ^ 16`. -/
def floatText (x : Float) : Text :=
  let sign := if Binary.signBit x then ['-'] else []
  if x == 0 then sign ++ ['0', '.', '0']
  else
    let point := Binary.shortest .even (Binary.magnitude x)
    let digits := Nat.toDigits 10 point.digits
    let exponent := (digits.length + point.grid : Int) - 1075
    if -5 ≤ exponent ∧ exponent < 16 then
      let n := Numeral.ofGridPoint (Binary.signBit x) point
      if n.fraction = [] then n.text ++ ['.', '0'] else n.text
    else sign ++ scientificDigits digits ++ exponentText exponent

end EquationFigure.Json
