import EquationFigure.Equation.Session
import EquationFigure.Equation.Token

/-!
# Putting in values for names

The leftmost name of a text is looked up and replaced by its value, and the text is searched again
from its start, until it has no name.

* `lookUp` — the value of a name.  What could be wrong is checked in a fixed order: that the name
  has a value, that it is not switched off, and that it is not being evaluated already; only then
  does the cache answer.
* `substituteWithin` — puts in values at most a given number of times.  A value that is a finite
  number has no letters, so it brings in no new name.  An infinity does, and its name may stand for
  an infinity again; that is why the number of times has to be limited at all.
-/

set_option autoImplicit false

namespace EquationFigure

/-- The value of a name, when `pending` are the names being evaluated, the outermost first, and
`evaluate` evaluates a formula while more names are pending. -/
def lookUp (vars : Variables) (evaluate : List Text → Text → EvalM Float)
    (pending : List Text) (depth : Nat) (name : Text) : EvalM Float :=
  match vars.get? name with
  | none => .fail (vars.undefined name)
  | some entry =>
    match entry.value? with
    | none => .fail (vars.undefined name)
    | some value =>
      if entry.disabled then .fail (.disabledVariable name)
      else if pending.contains name then
        .fail (.cyclicDependency name (pending.dropWhile (· != name) ++ [name]))
      else do
        match ← EvalM.cached? name with
        | some x => return x
        | none =>
          match value with
          | .number x => if x.isFinite then return x else .fail (.nonFinite name)
          | .formula formula =>
            let x ← evaluate (pending ++ [name]) formula
            EvalM.record (.resolvedFormula name x depth)
            EvalM.remember name x
            return x

/-- Replaces the leftmost name by its value, at most `times` times, until there is no name left. -/
def substituteWithin (vars : Variables) (value : Text → EvalM Float) (depth : Nat)
    (times : Nat) (t : Text) : EvalM Text :=
  match firstName? t with
  | none => return t
  | some (before, name, after) =>
    match times with
    | 0 => .fail (.endlessSubstitution t)
    | times + 1 => do
      let x ← value name
      let rewritten := before ++ numberText x ++ after
      if rewritten = t then .fail (vars.undefined name)
      else
        EvalM.record (.substituted name x depth rewritten)
        substituteWithin vars value depth times rewritten

/-- How often values have to be put in at most, unless it goes on for ever: a name may stand for an
infinity, that for a value that is not a number, and that for a number; a fourth time would look up
one of the three names again. -/
def substitutionLimit (t : Text) : Nat := 3 * t.length

/-- The text with the value of each name in its place. -/
def substitute (vars : Variables) (value : Text → EvalM Float) (depth : Nat) (t : Text) :
    EvalM Text :=
  substituteWithin vars value depth (substitutionLimit t) t

end EquationFigure
