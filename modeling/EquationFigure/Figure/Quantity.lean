import EquationFigure.Equation.Evaluation

/-!
# Quantities

Whatever is a number in a finished figure is given as a `Quantity`: the number itself, or an
equation for it.
-/

set_option autoImplicit false

namespace EquationFigure

/-- A number of a figure, as the document gives it. -/
inductive Quantity where
  /-- The number itself. -/
  | number (x : Float)
  /-- An equation for it. -/
  | equation (text : Text)

namespace Quantity

/-- The quantity as the value of a variable. -/
def toVariableValue : Quantity → VariableValue
  | number x => .number x
  | equation text => .formula text

/-- The number that the quantity stands for. -/
def evaluate (vars : Variables) (options : EvalOptions) : Quantity → EvalM Float
  | number x =>
    if x.isFinite then return x
    else .fail (.nonFinite (numberText x))
  | equation text => EquationFigure.evaluate vars options [] text

end Quantity

end EquationFigure
