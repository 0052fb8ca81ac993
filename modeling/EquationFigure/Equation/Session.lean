import EquationFigure.Attempt
import EquationFigure.Equation.Variable
import EquationFigure.Equation.Operator

/-!
# What evaluation remembers

Evaluating equations over one table of variables keeps a cache, so that each formula is worked out
once, and a record of the rewriting steps.  Both survive a failure.

* `Event` — one step: a rewritten text, or a value found.  `Event.fields` gives it as named texts.
* `Session` — the cache and the events so far, the newest first.
* `EvalM` — work within a session.
-/

set_option autoImplicit false

namespace EquationFigure

/-- A step of evaluation, or an attribute left out of a figure. -/
inductive Event where
  /-- A name was replaced by its value, which made `equation` of the text. -/
  | substituted (name : Text) (value : Float) (depth : Nat) (equation : Text)
  /-- The formula of a variable was evaluated. -/
  | resolvedFormula (name : Text) (value : Float) (depth : Nat)
  /-- A parenthesised group was replaced by its value, which made `equation` of the text. -/
  | resolvedGroup (depth : Nat) (equation : Text)
  /-- What stands before a closing parenthesis was evaluated; `rest` is its value and what
  follows. -/
  | closedGroup (value : Float) (depth : Nat) (rest : Text)
  /-- An operation was replaced by its value, which made `equation` of the text. -/
  | reduced (operator : Operator) (value : Float) (equation : Text)
  /-- An attribute could not be evaluated and was left out. -/
  | skipped (element name message : String)

namespace Event

/-- The event in words and the values that it carries, as named texts. -/
def fields : Event → List (String × Text)
  | substituted name value depth equation =>
    [("message", "substituted variable".toList), ("name", name), ("value", numberText value),
     ("depth", Nat.toDigits 10 depth), ("equation", equation)]
  | resolvedFormula name value depth =>
    [("message", "resolved formula variable".toList), ("name", name),
     ("value", numberText value), ("depth", Nat.toDigits 10 depth)]
  | resolvedGroup depth equation =>
    [("message", "resolved group".toList), ("depth", Nat.toDigits 10 depth),
     ("equation", equation)]
  | closedGroup value depth rest =>
    [("message", "closed group".toList), ("value", numberText value),
     ("depth", Nat.toDigits 10 depth), ("rest", rest)]
  | reduced operator value equation =>
    [("message", "reduced".toList), ("op", operator.symbol), ("value", numberText value),
     ("equation", equation)]
  | skipped element name message =>
    [("message", message.toList), ("element", element.toList), ("attribute", name.toList)]

end Event

/-- The values worked out so far, by name. -/
abbrev Cache := Table Float

/-- What evaluation remembers. -/
structure Session where
  /-- The values of the formulas evaluated so far. -/
  cache : Cache := ∅
  /-- The steps so far, the newest first. -/
  events : List Event := []

/-- Evaluation within a session. -/
abbrev EvalM := Attempt Session EvalError

namespace EvalM

/-- Writes down a step. -/
def record (event : Event) : EvalM Unit :=
  .update fun s => { s with events := event :: s.events }

/-- The cached value of a name. -/
def cached? (name : Text) : EvalM (Option Float) := .read fun s => s.cache.get? name

/-- Puts the value of a name into the cache. -/
def remember (name : Text) (value : Float) : EvalM Unit :=
  .update fun s => { s with cache := s.cache.insert name value }

end EvalM

end EquationFigure
