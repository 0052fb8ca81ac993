import EquationFigure.Equation.Error
import EquationFigure.Decimal.Binary

/-!
# Operators

The seven operators of equations, the tiers in which they bind, and what they do to two numbers.

* `Operator.tiers` — the tightest tier first.  Inside a tier operators are tried in the order given;
  that `//` stands before `/` decides nothing, since no text is an operation of both.
* `Operator.apply` — the value of an operation, or why it has none: a divisor of zero is reported
  before anything is computed, and a result that is no finite number afterwards.
-/

set_option autoImplicit false

namespace EquationFigure

/-- A binary operator. -/
inductive Operator where
  /-- The power. -/
  | power
  /-- The product. -/
  | multiply
  /-- The quotient, rounded down to a whole number. -/
  | floorDivide
  /-- The quotient. -/
  | divide
  /-- The remainder, which has the sign of the dividend. -/
  | modulo
  /-- The sum. -/
  | add
  /-- The difference. -/
  | subtract
deriving DecidableEq, Repr

namespace Operator

/-- How the operator is written. -/
def symbol : Operator → Text
  | power => ['^']
  | multiply => ['*']
  | floorDivide => ['/', '/']
  | divide => ['/']
  | modulo => ['%']
  | add => ['+']
  | subtract => ['-']

/-- The operators by how tightly they bind, the tightest first. -/
def tiers : List (List Operator) :=
  [[power], [multiply, floorDivide, divide, modulo], [add, subtract]]

/-- The operator written like this. -/
def ofSymbol? (symbol : Text) : Option Operator :=
  tiers.flatten.find? fun op => op.symbol == symbol

theorem ofSymbol?_symbol (op : Operator) : ofSymbol? op.symbol = some op := by
  cases op <;> decide

/-- Whether the right operand divides. -/
def divides : Operator → Bool
  | floorDivide | divide | modulo => true
  | power | multiply | add | subtract => false

/-- The value of the operation in double arithmetic, which may be an infinity or not a number. -/
def compute (op : Operator) (lhs rhs : Float) : Float :=
  match op with
  | power => Float.pow lhs rhs
  | multiply => lhs * rhs
  | floorDivide => Float.floor (lhs / rhs)
  | divide => lhs / rhs
  | modulo => Binary.remainder lhs rhs
  | add => lhs + rhs
  | subtract => lhs - rhs

/-- The value of the operation; `expression` is how it was written, for the report of a failure. -/
def apply (op : Operator) (lhs rhs : Float) (expression : Text) : Except EvalError Float :=
  if op.divides && rhs == 0 then .error (.divisionByZero expression)
  else
    let value := op.compute lhs rhs
    if value.isFinite then .ok value else .error (.nonFinite expression)

/-- An operation that has a value has a finite one. -/
theorem isFinite_of_apply_eq_ok {op : Operator} {lhs rhs value : Float} {expression : Text}
    (h : op.apply lhs rhs expression = .ok value) : value.isFinite = true := by
  unfold apply at h
  split at h
  · simp at h
  · dsimp only at h
    split at h
    · rename_i hfin
      simp only [Except.ok.injEq] at h
      rwa [h] at hfin
    · simp at h

end Operator

end EquationFigure
