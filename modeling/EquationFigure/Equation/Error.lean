import EquationFigure.Text.Basic

/-!
# Why an equation has no value

`EvalError` has one constructor for each cause, and `message`, `help?` and `code` say how a cause is
reported.  What a message tells depends on the cause and on the offending name or text alone, so the
same failure always reads the same.
-/

set_option autoImplicit false

namespace EquationFigure

/-- Why an equation has no value. -/
inductive EvalError where
  /-- The name has no value; `similar?` is a name that differs from it in case only. -/
  | undefinedVariable (name : Text) (similar? : Option Text)
  /-- The variable is switched off. -/
  | disabledVariable (name : Text)
  /-- The variable refers to itself, by way of the names of `chain`, of which it is the first and
  the last. -/
  | cyclicDependency (name : Text) (chain : List Text)
  /-- A parenthesis has no partner. -/
  | parenthesisMismatch (equation : Text)
  /-- An operation brought the text no nearer to a number. -/
  | operationFailure (expression : Text)
  /-- There is nothing to evaluate. -/
  | emptyExpression
  /-- What is left when there is nothing more to do is no number. -/
  | parseFailure (text : Text)
  /-- Parentheses and variables are nested deeper than allowed. -/
  | depthExceeded (limit : Nat)
  /-- The divisor of a division or of a remainder is zero. -/
  | divisionByZero (expression : Text)
  /-- A value is an infinity or not a number. -/
  | nonFinite (expression : Text)
  /-- Putting in values for names brings in new names for ever. -/
  | endlessSubstitution (equation : Text)
deriving DecidableEq, Repr

namespace EvalError

/-- The cause in one word, as it ends the diagnostic code. -/
def kind : EvalError → String
  | undefinedVariable .. => "undefined_variable"
  | disabledVariable .. => "disabled_variable"
  | cyclicDependency .. => "cyclic_dependency"
  | parenthesisMismatch .. => "parenthesis_mismatch"
  | operationFailure .. => "operation_failure"
  | emptyExpression => "empty_expression"
  | parseFailure .. => "parse_failure"
  | depthExceeded .. => "depth_exceeded"
  | divisionByZero .. => "division_by_zero"
  | nonFinite .. => "non_finite"
  | endlessSubstitution .. => "endless_substitution"

/-- The diagnostic code. -/
def code (e : EvalError) : String := "svgeq::eval::" ++ e.kind

/-- The message for the reader of the equation. -/
def message : EvalError → String
  | undefinedVariable name _ => "undefined variable: " ++ String.ofList name
  | disabledVariable name => "variable is disabled: " ++ String.ofList name
  | cyclicDependency _ chain =>
    "cyclic dependency: " ++ String.ofList (Text.joinWith [' ', '-', '>', ' '] chain)
  | parenthesisMismatch equation =>
    "mismatched parentheses in `" ++ String.ofList equation ++ "`"
  | operationFailure expression =>
    "operation could not be applied to `" ++ String.ofList expression ++ "`"
  | emptyExpression => "empty expression"
  | parseFailure text => "not a number: `" ++ String.ofList text ++ "`"
  | depthExceeded limit => "nesting depth exceeded (max " ++ toString limit ++ ")"
  | divisionByZero expression => "division by zero in `" ++ String.ofList expression ++ "`"
  | nonFinite expression =>
    "result is NaN or infinite in `" ++ String.ofList expression ++ "`"
  | endlessSubstitution equation =>
    "substitution never ends in `" ++ String.ofList equation ++ "`"

/-- What to do about it, where there is something to say. -/
def help? : EvalError → Option String
  | undefinedVariable _ (some similar) =>
    some ("did you mean `" ++ String.ofList similar ++ "`?")
  | disabledVariable _ => some "enable the variable or stop referring to it"
  | depthExceeded _ => some "simplify the equation or raise `EvalOptions::max_depth`"
  | _ => none

end EvalError

end EquationFigure
