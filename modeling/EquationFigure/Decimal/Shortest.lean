import EquationFigure.Decimal.Binary

/-!
# The shortest decimal that reads back

Of the decimals that a correctly rounding reader takes for a given double, the ones on the
coarsest grid `10 ^ k` have the fewest digits, and the nearest of those to the double is its
*shortest decimal*.

Halving the unit a thousand times and more leaves powers of five only, so every finite double is a
whole multiple of `10 ^ (-1074)`.  Grids are numbered from there: grid `n` holds the multiples of
`10 ^ n` of these, that is, of `10 ^ (n - 1074)`.  A double lies on its grid `0`, so the search from
the coarse grids down to that one always ends with an answer.

* `readsBack x c` — whether the decimal `c` is among the reals that round to `x`.
* `neighbour? tie x n` — the point of grid `n` nearest to `x` that reads back, if one does.
* `shortest tie x` — the answer of the first grid that has one.
-/

set_option autoImplicit false

namespace EquationFigure

namespace Binary

/-- The decimal `digits * 10 ^ (grid - 1074)`. -/
structure GridPoint where
  /-- The digits, as one number. -/
  digits : Nat
  /-- The number of the grid. -/
  grid : Nat
deriving DecidableEq, Repr

/-- How to choose between two decimals of the same grid that are equally near. -/
inductive Tie where
  /-- The greater one. -/
  | up
  /-- The one whose digits are an even number. -/
  | even

/-- The multiples of `10 ^ (-1074)` in a unit. -/
def pointsPerUnit : Nat := Nat.pow 5 1074

/-- The magnitude as a point of grid `0`. -/
def Magnitude.points (x : Magnitude) : Nat := x.units * pointsPerUnit

/-- Whether the point `c` of grid `0` lies among the reals that round to `x`: between the middles
to its two neighbours, which belong to it exactly if its significand is even.  The middles are
quarters of the last place, so all is measured in those. -/
def readsBack (x : Magnitude) (c : Nat) : Bool :=
  let quarter := Nat.pow 2 x.shift * pointsPerUnit
  let low := (4 * x.significand - if x.narrowBelow then 1 else 2) * quarter
  let high := (4 * x.significand + 2) * quarter
  if x.significand % 2 = 0 then low ≤ 4 * c && 4 * c ≤ high else low < 4 * c && 4 * c < high

/-- Of the two points of grid `n` on either side of `x`, the nearer one that reads back. -/
def neighbour? (tie : Tie) (x : Magnitude) (n : Nat) : Option Nat :=
  let step := Nat.pow 10 n
  let below := x.points / step
  match readsBack x (below * step), readsBack x ((below + 1) * step) with
  | false, false => none
  | true, false => some below
  | false, true => some (below + 1)
  | true, true =>
    match compare (2 * x.points) ((2 * below + 1) * step), tie with
    | .lt, _ => some below
    | .gt, _ => some (below + 1)
    | .eq, .up => some (below + 1)
    | .eq, .even => some (if below % 2 = 0 then below else below + 1)

/-- The answer of the coarsest of the grids `n`, …, `0` that has one. -/
def shortestFrom (tie : Tie) (x : Magnitude) : Nat → GridPoint
  | 0 => ⟨x.points, 0⟩
  | n + 1 =>
    match neighbour? tie x (n + 1) with
    | some digits => ⟨digits, n + 1⟩
    | none => shortestFrom tie x n

/-- A grid too coarse to have a point that reads back other than zero: `30103 / 100000` is just
above the decimal logarithm of two, and twice the greatest real that rounds to `x` is below the
grid's first point. -/
def coarsestGrid (x : Magnitude) : Nat := Nat.log2 x.points * 30103 / 100000 + 2

/-- The shortest decimal that reads back as the positive magnitude `x`. -/
def shortest (tie : Tie) (x : Magnitude) : GridPoint := shortestFrom tie x (coarsestGrid x)

end Binary

end EquationFigure
