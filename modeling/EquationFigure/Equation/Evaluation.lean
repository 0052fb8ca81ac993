import EquationFigure.Equation.Grouping
import EquationFigure.Equation.Substitution

/-!
# Evaluating equations

An equation is evaluated by rewriting its text in stages: an equals sign at the start goes, names
are replaced by their values, which may evaluate other equations, parentheses are resolved, and what
is left is reduced to a number.

* `evaluateAt vars limit levels` — evaluates an equation when `levels` more levels of nesting are
  allowed, each group and each formula taking one.
* `evaluate` — evaluates an equation under given options, from the outermost level.
* `evaluateFresh` — the same with nothing remembered, which makes it a function of the table and the
  equation.
-/

set_option autoImplicit false

namespace EquationFigure

/-- How equations are evaluated. -/
structure EvalOptions where
  /-- How deep groups and formulas may be nested. -/
  maxDepth : Nat := 100
  /-- Whether the steps are to be reported.  They are recorded in any case. -/
  trace : Bool := false
deriving DecidableEq, Repr

/-- The text of an equation without leading blanks and without one equals sign behind them. -/
def equationBody (t : Text) : Text :=
  match Text.trimStart t with
  | '=' :: rest => rest
  | rest => rest

/-- Evaluates an equation when `levels` of the `limit + 1` levels of nesting are left and `pending`
are the names being evaluated, the outermost first. -/
def evaluateAt (vars : Variables) (limit : Nat) :
    (levels : Nat) → (pending : List Text) → (equation : Text) → EvalM Float
  | 0, _, _ => .fail (.depthExceeded limit)
  | levels + 1, pending, equation => do
    let depth := limit - levels
    let value := lookUp vars (evaluateAt vars limit levels) pending depth
    let t ← substitute vars value depth (equationBody equation)
    if t.count '(' = t.count ')' then
      match ← resolveGroups limit (levels + 1) t with
      | .value x => return x
      | .closed _ => .fail (.parenthesisMismatch t)
    else .fail (.parenthesisMismatch t)

/-- Evaluates an equation.  A name among `pending` counts as being evaluated already, so referring
to it is a cycle. -/
def evaluate (vars : Variables) (options : EvalOptions) (pending : List Text)
    (equation : Text) : EvalM Float :=
  evaluateAt vars options.maxDepth (options.maxDepth + 1) pending equation

/-- The value of an equation when nothing has been evaluated before. -/
def evaluateFresh (vars : Variables) (options : EvalOptions) (equation : Text) :
    Except EvalError Float :=
  ((evaluate vars options [] equation).run {}).1

end EquationFigure
