import EquationFigure.Decimal.Shortest

/-!
# Decimal numerals

A `Numeral` is a number as equations and attributes write it: an optional minus sign, digits, and
after a point more digits.  There is no exponent, no bare point and no plus sign.

* `Numeral.text` — how it is written; `Numeral.scan` — reads one at the start of a text, taking as
  many characters as it can.  `scan_eq_some` says that nothing is lost in between.
* `Numeral.value` — the double nearest to it, ties going to the even significand.
* `Numeral.ofFloat` — the numeral of a finite double: its shortest decimal, written out with all its
  zeros.  A zero has no sign.
* `numberText` — the text of any double; the three that are no numbers get a word.
-/

set_option autoImplicit false

namespace EquationFigure

/-- A decimal number as it is written. -/
structure Numeral where
  /-- Whether a minus sign comes first. -/
  negative : Bool
  /-- The digits before the point. -/
  whole : Text
  /-- The digits after the point; without any, there is no point. -/
  fraction : Text
deriving DecidableEq, Repr

namespace Numeral

/-! ## Writing and reading -/

/-- The numeral as it is written. -/
def text (n : Numeral) : Text :=
  (if n.negative then ['-'] else []) ++ n.whole ++
    (if n.fraction = [] then [] else '.' :: n.fraction)

/-- Splits off the digits at the start of the text. -/
def digits (t : Text) : Text × Text := (t.takeWhile Char.isDigit, t.dropWhile Char.isDigit)

theorem digits_append (t : Text) : (digits t).1 ++ (digits t).2 = t :=
  List.takeWhile_append_dropWhile

/-- Reads what follows the sign of a numeral; a point belongs to it only if a digit follows. -/
def scanUnsigned (negative : Bool) (t : Text) : Option (Numeral × Text) :=
  match digits t with
  | ([], _) => none
  | (whole, '.' :: rest) =>
    match digits rest with
    | ([], _) => some (⟨negative, whole, []⟩, '.' :: rest)
    | (fraction, rest) => some (⟨negative, whole, fraction⟩, rest)
  | (whole, rest) => some (⟨negative, whole, []⟩, rest)

/-- Reads the longest numeral at the start of the text, and hands back what follows it. -/
def scan : Text → Option (Numeral × Text)
  | '-' :: t => scanUnsigned true t
  | t => scanUnsigned false t

theorem scanUnsigned_eq_some {negative : Bool} {t rest : Text} {n : Numeral}
    (h : scanUnsigned negative t = some (n, rest)) :
    (if negative then ['-'] else []) ++ t = n.text ++ rest := by
  have hd := digits_append t
  unfold scanUnsigned at h
  split at h
  · simp at h
  · rename_i whole after hw hsplit
    have hd' := digits_append after
    split at h
    · simp only [Option.some.injEq, Prod.mk.injEq] at h
      obtain ⟨rfl, rfl⟩ := h
      simp_all [text]
    · simp only [Option.some.injEq, Prod.mk.injEq] at h
      obtain ⟨rfl, rfl⟩ := h
      simp_all [text]
  · simp only [Option.some.injEq, Prod.mk.injEq] at h
    obtain ⟨rfl, rfl⟩ := h
    simp_all [text]

/-- What was read and what is left make up the text. -/
theorem scan_eq_some {t rest : Text} {n : Numeral} (h : scan t = some (n, rest)) :
    t = n.text ++ rest := by
  unfold scan at h
  split at h
  · simpa using scanUnsigned_eq_some h
  · simpa using scanUnsigned_eq_some h

/-! ## Values -/

/-- The digits before and after the point as one number. -/
def mantissa (n : Numeral) : Nat := Nat.ofDigitChars 10 (n.whole ++ n.fraction) 0

/-- The double nearest to the numeral, an infinity if it is beyond the greatest double. -/
def value (n : Numeral) : Float :=
  Binary.ofMagnitudeBits n.negative
    (Binary.nearestBits (n.mantissa * Binary.unitsPerOne) (Nat.pow 10 n.fraction.length))

/-- The point `digits * 10 ^ (grid - 1074)` written out.  On a grid of fractions the digits are
filled up with zeros on the left until one stands before the point; on a grid of whole numbers
zeros follow them. -/
def ofGridPoint (negative : Bool) (point : Binary.GridPoint) : Numeral :=
  let digits := Nat.toDigits 10 point.digits
  let places := 1074 - point.grid
  let padded := List.replicate (places + 1 - digits.length) '0' ++ digits ++
    List.replicate (point.grid - 1074) '0'
  let wholeLength := padded.length - places
  ⟨negative, padded.take wholeLength, padded.drop wholeLength⟩

/-- The numeral of a finite double.  Two decimals of the same length that are equally near are told
apart by taking the greater. -/
def ofFloat (x : Float) : Numeral :=
  if x == 0 then ⟨false, ['0'], []⟩
  else ofGridPoint (Binary.signBit x) (Binary.shortest .up (Binary.magnitude x))

end Numeral

/-- The text of a number, as it is spliced into equations and written into attributes. -/
def numberText (x : Float) : Text :=
  if x.isNaN then ['N', 'a', 'N']
  else if x.isInf then
    if Binary.signBit x then ['-', 'i', 'n', 'f'] else ['i', 'n', 'f']
  else (Numeral.ofFloat x).text

end EquationFigure
