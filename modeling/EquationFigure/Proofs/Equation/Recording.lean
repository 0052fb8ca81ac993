import EquationFigure.Proofs.Equation.Groups
import EquationFigure.Proofs.Equation.LookUp

/-!
# What rewriting writes down, and how it fails

Apart from looking names up, an evaluation rewrites texts.  All that a rewrite does to the session
is to write itself down, and all that can be wrong is in the text: a step never fails to bring the
text nearer to a number.

* `Event.IsResolution` — the one step that is no rewrite, the evaluation of a formula.
* `KeptByRewrites` — a property of sessions that writing down a rewrite keeps.  Every stage keeps
  it, as long as looking names up does: `KeptByRewrites.reduce` to `KeptByRewrites.evaluateUsing`.
* `EvalError.OfText` — what can be wrong with a text without names; nothing else makes reducing it
  or resolving its groups fail.
* `EvalError.Reported` — what an evaluation may report, `reported_evaluateAt`.
-/

set_option autoImplicit false

namespace EquationFigure

open EvalM

/-- The step evaluated the formula of a name.  Every other step rewrites a text. -/
def Event.IsResolution : Event → Prop
  | resolvedFormula .. => True
  | _ => False

/-- Writing down a rewrite keeps the property. -/
def KeptByRewrites (I : Session → Prop) : Prop :=
  ∀ event : Event, ¬ event.IsResolution → ∀ s, I s → I ((record event).run s).2

/-- The error tells of numbers, operations that have no value, parentheses and levels. -/
def EvalError.OfText : EvalError → Prop
  | emptyExpression | parseFailure _ | divisionByZero _ | nonFinite _ | parenthesisMismatch _
  | depthExceeded _ => True
  | _ => False

theorem ofText_of_value {o : Operation} {e : EvalError} (h : o.value = .error e) : e.OfText := by
  rcases Operation.value_eq_error h with rfl | rfl <;> exact trivial

theorem ofText_of_readValue {t : Text} {e : EvalError} (h : readValue t = .error e) :
    e.OfText := by
  rcases readValue_eq_error h with rfl | rfl <;> exact trivial

namespace KeptByRewrites

variable {I : Session → Prop} {bad : EvalError → Prop}

/-- What holds of every session is kept. -/
theorem always : KeptByRewrites fun _ => True := fun _ _ _ _ => trivial

theorem record (hI : KeptByRewrites I) {event : Event} (h : ¬ event.IsResolution) :
    Attempt.Ends I (fun _ => True) bad (EvalM.record event) :=
  Attempt.ends_update (hI event h)

/-- Reducing a text takes as many steps as it needs, so it is by induction on what they use up. -/
theorem reduce (hI : KeptByRewrites I) (t : Text) :
    Attempt.Ends I (fun _ => True) EvalError.OfText (EquationFigure.reduce t) := by
  induction hcount : operandCount t using Nat.strong_induction_on generalizing t with
  | h count ih =>
    rw [reduce_eq]
    cases hnext : nextOperation Operator.tiers t with
    | none => exact Attempt.ends_ofExcept (fun _ _ => trivial) fun _ => ofText_of_readValue
    | some occ =>
      have hstep := fun x => operandCount_step (x := x) (nextOperation_spec hnext)
      obtain ⟨before, operation, after⟩ := occ
      dsimp only at hstep
      refine Attempt.Ends.bind (Attempt.ends_ofExcept
        (fun x hx => Operator.isFinite_of_apply_eq_ok hx) fun _ => ofText_of_value) fun x hx => ?_
      have hlt := hstep x hx
      exact (hI.record id).bind fun _ _ => ih _ (by omega) _ rfl

theorem closeGroup (hI : KeptByRewrites I) (depth : Nat) (before after : Text) :
    Attempt.Ends I (fun _ => True) EvalError.OfText
      (EquationFigure.closeGroup depth before after) :=
  (hI.reduce before).bind fun _ _ => (hI.record id).bind fun _ _ => Attempt.ends_pure trivial

theorem resolveEach (hI : KeptByRewrites I) {nested : Text → EvalM Resolved}
    (hnested : ∀ t, Attempt.Ends I (fun _ => True) EvalError.OfText (nested t))
    (depth groups : Nat) (t : Text) :
    Attempt.Ends I (fun _ => True) EvalError.OfText
      (EquationFigure.resolveEach nested depth groups t) := by
  refine resolveEach_induction ?value ?close ?refused ?group groups t
  case value => exact fun t _ => (hI.reduce t).bind fun _ _ => Attempt.ends_pure trivial
  case close => exact fun before after _ => hI.closeGroup depth before after
  case refused => exact fun _ _ _ => Attempt.ends_fail trivial
  case group =>
    intro groups before after _ _ ih
    refine (hnested after).bind fun resolved _ => ?_
    cases resolved with
    | value x => exact Attempt.ends_fail trivial
    | closed rest => exact (hI.record id).bind fun _ _ => ih rest

theorem resolveGroups (hI : KeptByRewrites I) (limit levels : Nat) (t : Text) :
    Attempt.Ends I (fun _ => True) EvalError.OfText
      (EquationFigure.resolveGroups limit levels t) := by
  induction levels generalizing t with
  | zero => exact Attempt.ends_fail trivial
  | succ levels ih => exact hI.resolveEach ih _ _ t

/-- **A text without names fails for what is in it.** -/
theorem resolve (hI : KeptByRewrites I) (limit levels : Nat) (t : Text) :
    Attempt.Ends I (fun _ => True) EvalError.OfText (EquationFigure.resolve limit levels t) := by
  rw [EquationFigure.resolve]
  split
  · refine (hI.resolveGroups _ _ _).bind fun resolved _ => ?_
    cases resolved with
    | value x => exact Attempt.ends_pure trivial
    | closed rest => exact Attempt.ends_fail trivial
  · exact Attempt.ends_fail trivial

section Names

variable {vars : Variables} {value : Text → EvalM Float}

theorem substituteWithin (hI : KeptByRewrites I) (hundefined : ∀ name, bad (vars.undefined name))
    (hendless : ∀ t, bad (.endlessSubstitution t))
    (hvalue : ∀ name, Attempt.Ends I (fun _ => True) bad (value name)) (depth times : Nat)
    (t : Text) :
    Attempt.Ends I (fun _ => True) bad
      (EquationFigure.substituteWithin vars value depth times t) := by
  induction times generalizing t with
  | zero =>
    rw [substituteWithin.eq_def]
    split
    · exact Attempt.ends_pure trivial
    · exact Attempt.ends_fail (hendless t)
  | succ times ih =>
    rw [substituteWithin.eq_def]
    split
    · exact Attempt.ends_pure trivial
    · refine (hvalue _).bind fun x _ => ?_
      dsimp only
      split
      · exact Attempt.ends_fail (hundefined _)
      · exact (hI.record id).bind fun _ _ => ih _

/-- **An evaluation keeps the property if looking names up does**, and fails like that or for what
is in the text. -/
theorem evaluateUsing (hI : KeptByRewrites I) (hundefined : ∀ name, bad (vars.undefined name))
    (hendless : ∀ t, bad (.endlessSubstitution t)) (htext : ∀ e : EvalError, e.OfText → bad e)
    (hvalue : ∀ name, Attempt.Ends I (fun _ => True) bad (value name)) (limit levels : Nat)
    (equation : Text) :
    Attempt.Ends I (fun _ => True) bad
      (EquationFigure.evaluateUsing vars value limit levels equation) :=
  (hI.substituteWithin hundefined hendless hvalue _ _ _).bind fun t _ =>
    (hI.resolve limit levels t).mono (fun _ h => h) htext

end Names

end KeptByRewrites

/-! ## What is reported -/

/-- What may be reported of an equation: what can be wrong with a text, that a name has no usable
value or is being evaluated already, and that putting in values does not end. -/
inductive EvalError.Reported (vars : Variables) : EvalError → Prop
  | ofText {e : EvalError} : e.OfText → Reported vars e
  | undefined (name : Text) : Reported vars (vars.undefined name)
  | disabled (name : Text) : Reported vars (.disabledVariable name)
  | cyclic (name : Text) (chain : List Text) : Reported vars (.cyclicDependency name chain)
  | endless (t : Text) : Reported vars (.endlessSubstitution t)

/-- **Nothing else is reported.** -/
theorem reported_evaluateAt (vars : Variables) (limit levels : Nat) (pending : List Text)
    (t : Text) :
    Attempt.Ends (fun _ => True) (fun _ => True) (EvalError.Reported vars)
      (evaluateAt vars limit levels pending t) := by
  induction levels generalizing pending t with
  | zero => exact Attempt.ends_fail (.ofText trivial)
  | succ levels ih =>
    rw [evaluateAt_succ]
    refine KeptByRewrites.always.evaluateUsing .undefined .endless (fun _ => .ofText)
      (fun name s _ => ⟨trivial, fun _ _ => trivial, fun e he => ?_⟩) limit levels t
    rcases lookUp_eq_error he with (rfl | rfl | rfl) | ⟨-, rfl⟩ | ⟨-, -, f, -, herr⟩
    · exact .undefined name
    · exact .disabled name
    · exact .ofText trivial
    · exact .cyclic name _
    · exact (ih _ f s trivial).2.2 e herr

end EquationFigure
