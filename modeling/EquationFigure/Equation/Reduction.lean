import EquationFigure.Equation.Session
import EquationFigure.Equation.Token

/-!
# Reducing a text without parentheses to a number

`reduce` looks for the leftmost operation of the tightest tier that has one, replaces it by its
value, and starts over, until the text is a single number or nothing at all.

* `followsOperand` — tells the minus of a difference from that of a negative numeral: a numeral
  cannot start right behind an operand.
* `findOperation` — the leftmost operation of a tier; `nextOperation` — of the tightest tier.
* `operandCount` — the digits of a text, counted as the runs that a numeral could start with.  A
  reduction step makes one operand of two, so this number of steps is never used up.
-/

set_option autoImplicit false

namespace EquationFigure

/-! ## The place of the next step -/

/-- Whether an operand ends right before the character `c`, where `left` is the text before it read
backwards.  A minus may stand off from the operand. -/
def followsOperand (left : Text) (c : Char) : Bool :=
  match if c = '-' then Text.trimStart left else left with
  | [] => false
  | d :: _ => d.isDigit || d == '.'

/-- An operation in its place. -/
structure Occurrence where
  /-- The text before the operation. -/
  before : Text
  /-- The operation. -/
  operation : Operation
  /-- The text behind the operation. -/
  after : Text

/-- The first operator of the list with which the text starts with an operation. -/
def scanAny (operators : List Operator) (t : Text) : Option (Operation × Text) :=
  operators.findSome? fun op => Operation.scan op t

/-- The leftmost operation with one of the operators, where `left` is the text before `t` read
backwards. -/
def findOperation (operators : List Operator) (left : Text) : (t : Text) → Option Occurrence
  | [] => none
  | c :: t =>
    let here :=
      if (c.isDigit || c == '-') && !followsOperand left c then scanAny operators (c :: t)
      else none
    match here with
    | some (operation, after) => some ⟨left.reverse, operation, after⟩
    | none => findOperation operators (c :: left) t

/-- The operation that is carried out next, in an order of tiers. -/
def nextOperation (tiers : List (List Operator)) (t : Text) : Option Occurrence :=
  tiers.findSome? fun operators => findOperation operators [] t

/-! ## Carrying out the steps -/

/-- How many runs of digits there are in `t` that do not stand right behind a point, where
`previous` is the character before `t`. -/
def operandCountAfter (previous : Char) : Text → Nat
  | [] => 0
  | c :: t =>
    (if c.isDigit && !previous.isDigit && previous != '.' then 1 else 0) +
      operandCountAfter c t

/-- How many runs of digits there are in the text that do not stand right behind a point. -/
def operandCount (t : Text) : Nat := operandCountAfter ' ' t

/-- Reduces the text in at most `steps` steps, carrying out the operations of earlier tiers
first.  A step that leaves the text as it is would go on for ever, so it is refused. -/
def reduceWithin (tiers : List (List Operator)) (steps : Nat) (t : Text) : EvalM Float :=
  match nextOperation tiers t with
  | none => .ofExcept (readValue t)
  | some ⟨before, operation, after⟩ =>
    match steps with
    | 0 => .fail (.operationFailure t)
    | steps + 1 => do
      let value ← .ofExcept operation.value
      let rewritten := before ++ numberText value ++ after
      if rewritten = t then .fail (.operationFailure t)
      else
        EvalM.record (.reduced operation.operator value rewritten)
        reduceWithin tiers steps rewritten

/-- Reduces the text to a number. -/
def reduce (t : Text) : EvalM Float := reduceWithin Operator.tiers (operandCount t) t

end EquationFigure
