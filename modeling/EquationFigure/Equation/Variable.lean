import EquationFigure.Table
import EquationFigure.Equation.Error
import EquationFigure.Decimal.Numeral

/-!
# Variables

What an equation may refer to by name: a number, or a formula that is itself an equation.  A
variable may also be declared without a value, or switched off.

* `Variables.similarName?` — the name to suggest in place of one that has no value.
* `Variables.undefined` — the report of a name without a value.
-/

set_option autoImplicit false

namespace EquationFigure

/-- The value of a variable. -/
inductive VariableValue where
  /-- An equation, evaluated when the variable is first needed. -/
  | formula (text : Text)
  /-- A number. -/
  | number (x : Float)

/-- The value as it is written: a formula as it stands, a number as `numberText` writes it. -/
def VariableValue.text : VariableValue → Text
  | formula text => text
  | number x => numberText x

/-- A named value. -/
structure Variable where
  /-- The value, if one was given. -/
  value? : Option VariableValue := none
  /-- Whether the variable is switched off, so that referring to it is an error. -/
  disabled : Bool := false
  /-- A remark that evaluation takes no notice of. -/
  comment? : Option Text := none

/-- The variable with the given formula. -/
def Variable.ofFormula (text : Text) : Variable := { value? := some (.formula text) }

/-- The variable with the given number. -/
def Variable.ofNumber (x : Float) : Variable := { value? := some (.number x) }

/-- The variables that an equation may refer to. -/
abbrev Variables := Table Variable

namespace Variables

/-- The least of a list of names in the order of their code points. -/
def leastName? : List Text → Option Text
  | [] => none
  | name :: names =>
    match leastName? names with
    | none => some name
    | some least => some (if name ≤ least then name else least)

/-- The first of the other names, in the order of their code points, that differs from `name` in
case only. -/
def similarName? (vars : Variables) (name : Text) : Option Text :=
  leastName? (vars.names.filter fun other => other != name && Text.sameIgnoringCase other name)

/-- The report that `name` has no value. -/
def undefined (vars : Variables) (name : Text) : EvalError :=
  .undefinedVariable name (vars.similarName? name)

end Variables

end EquationFigure
