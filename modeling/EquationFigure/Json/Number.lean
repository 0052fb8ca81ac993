import EquationFigure.Decimal.Scientific
import EquationFigure.Json.Error

/-!
# Numbers in JSON

A number is written as a minus sign, digits, a point with more digits and an exponent; all but the
first digits may be missing.

* `Number` — the parts of a number as written; `Number.scan` reads them.
* `Number.value` — what the number stands for.
* `scanNumber` — a number at the start of a text, with its value.
-/

set_option autoImplicit false

namespace EquationFigure.Json

/-- The exponent of a number as it is written. -/
structure Exponent where
  /-- Whether a minus sign comes first. -/
  negative : Bool
  /-- The digits. -/
  digits : Text
deriving DecidableEq, Repr

/-- The exponent as a number. -/
def Exponent.value (e : Exponent) : Int :=
  let n : Int := Nat.ofDigitChars 10 e.digits 0
  if e.negative then -n else n

/-- A number as it is written. -/
structure Number where
  /-- Whether a minus sign comes first. -/
  negative : Bool
  /-- The digits before the point. -/
  whole : Text
  /-- The digits after the point; without any, there is no point. -/
  fraction : Text
  /-- The exponent, if there is one. -/
  exponent? : Option Exponent
deriving DecidableEq, Repr

namespace Number

/-! ## Reading -/

/-- Reads the digits before the point.  A zero at their start stands alone. -/
def scanWhole : Text → Except Stop (Text × Text)
  | [] => .error ⟨.endInValue, [], 0⟩
  | '0' :: t =>
    match Numeral.digits t with
    | ([], _) => .ok (['0'], t)
    | _ => .error ⟨.badNumber, t, 1⟩
  | t =>
    match Numeral.digits t with
    | ([], _) => .error ⟨.badNumber, t, 1⟩
    | (digits, rest) => .ok (digits, rest)

/-- Reads digits where at least one is needed. -/
def scanDigits (t : Text) : Except Stop (Text × Text) :=
  match Numeral.digits t with
  | ([], []) => .error ⟨.endInValue, [], 0⟩
  | ([], _) => .error ⟨.badNumber, t, 1⟩
  | (digits, rest) => .ok (digits, rest)

/-- Reads the point and the digits after it, if there is a point. -/
def scanFraction : Text → Except Stop (Text × Text)
  | '.' :: t => scanDigits t
  | t => .ok ([], t)

/-- Reads the exponent behind a significand, if there is one. -/
def scanExponent : Text → Except Stop (Option Exponent × Text)
  | [] => .ok (none, [])
  | c :: t =>
    if c = 'e' ∨ c = 'E' then do
      let (negative, t) := match t with
        | '-' :: t => (true, t)
        | '+' :: t => (false, t)
        | t => (false, t)
      let (digits, rest) ← scanDigits t
      return (some ⟨negative, digits⟩, rest)
    else .ok (none, c :: t)

/-- Reads what follows the sign of a number. -/
def scanUnsigned (negative : Bool) (t : Text) : Except Stop (Number × Text) := do
  let (whole, t) ← scanWhole t
  let (fraction, t) ← scanFraction t
  let (exponent?, t) ← scanExponent t
  return (⟨negative, whole, fraction, exponent?⟩, t)

/-- Reads the number at the start of the text. -/
def scan : Text → Except Stop (Number × Text)
  | '-' :: t => scanUnsigned true t
  | t => scanUnsigned false t

/-! ## Values -/

/-- What the number stands for: a whole number if it is written as one, else the nearest double. -/
def value (n : Number) : Value :=
  match n.fraction, n.exponent? with
  | [], none => .ofWhole n.negative (Nat.ofDigitChars 10 n.whole 0)
  | fraction, exponent? =>
    .float (Binary.ofMagnitudeBits n.negative
      (Binary.scientificBits (Nat.ofDigitChars 10 (n.whole ++ fraction) 0)
        ((exponent?.map Exponent.value).getD 0 - fraction.length)))

/-- The greatest exponent that is told apart from greater ones. -/
def exponentLimit : Nat := Nat.pow 2 31 - 1

/-- What follows the first digit that takes the number made of the digits, behind those of `n`,
beyond the limit of exponents, if there is such a digit. -/
def beyondLimit? (n : Nat) : (digits : Text) → Option Text
  | [] => none
  | c :: t =>
    let n := 10 * n + (c.toNat - '0'.toNat)
    if exponentLimit < n then some t else beyondLimit? n t

/-- The digits that follow when the exponent turns out to be beyond the limit, unless that does no
harm because the number is near or equal to zero. -/
def excess? (n : Number) : Option Text := do
  let e ← n.exponent?
  if e.negative ∨ (n.whole ++ n.fraction).all (· == '0') then none else beyondLimit? 0 e.digits

end Number

/-- Reads the number at the start of the text and works out its value, which must not be beyond the
greatest double. -/
def scanNumber (t : Text) : Except Stop (Value × Text) := do
  let (n, rest) ← Number.scan t
  match n.excess?, n.value with
  | some left, _ => .error ⟨.hugeNumber, left ++ rest, 0⟩
  | none, .float x => if x.isInf then .error ⟨.hugeNumber, rest, 0⟩ else .ok (.float x, rest)
  | none, v => .ok (v, rest)

/-- Reads over the number at the start of the text.  It may be of any size, and any flaw of it is
that it is no number. -/
def skipNumber (t : Text) : Except Stop (Unit × Text) :=
  match Number.scan t with
  | .ok (_, rest) => .ok ((), rest)
  | .error stop => .error ⟨.badNumber, stop.rest, 1⟩

end EquationFigure.Json
