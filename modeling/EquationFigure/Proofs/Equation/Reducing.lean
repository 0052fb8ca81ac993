import EquationFigure.Proofs.Equation.Recording

/-!
# Reducing a text comes to an end

Whatever the text is, each operation that is carried out makes one operand of two, so the operands
count the steps: there are fewer steps than operands.  No step leaves the text as it is, which is
what would be reported as a failure of the operation.

* `Reduces t events t' r` — the loop leads from `t` to `t'`, writes down these steps, and ends with
  `r`.  Every text is reduced in one way, `exists_reduces`, and that is what `reduce` does,
  `Reduces.run_reduce`.
* `Reduces.operandCount_eq` — the operands of the two texts differ by the number of steps.
* `reduction_spec` — all this, and that no evaluation fails because of a step that changes nothing.
-/

set_option autoImplicit false

namespace EquationFigure

open EvalM

/-! ## The loop without a limit -/

/-- The text with the value in the place of the operation. -/
def Occurrence.splice (occ : Occurrence) (x : Float) : Text :=
  occ.before ++ numberText x ++ occ.after

/-- The loop leads from the first text to the last one, writes down these steps, and ends there:
with a text that has no operation and is read as a number, or with an operation that has no
value. -/
inductive Reduces : Text → List Event → Text → Except EvalError Float → Prop
  | read {t : Text} : nextOperation Operator.tiers t = none → Reduces t [] t (readValue t)
  | fail {t : Text} {occ : Occurrence} {e : EvalError} :
    nextOperation Operator.tiers t = some occ → occ.operation.value = .error e →
    Reduces t [] t (.error e)
  | step {t t' : Text} {occ : Occurrence} {x : Float} {events : List Event}
    {r : Except EvalError Float} :
    nextOperation Operator.tiers t = some occ → occ.operation.value = .ok x →
    Reduces (occ.splice x) events t' r →
    Reduces t (.reduced occ.operation.operator x (occ.splice x) :: events) t' r

section Reduces

variable {t t' : Text} {occ : Occurrence} {x : Float} {events : List Event}
  {r : Except EvalError Float}

/-- A step takes one operand away. -/
theorem operandCount_splice (hnext : nextOperation Operator.tiers t = some occ)
    (hvalue : occ.operation.value = .ok x) : operandCount t = operandCount (occ.splice x) + 1 :=
  operandCount_step (nextOperation_spec hnext) (Operator.isFinite_of_apply_eq_ok hvalue)

/-- **Every text is reduced.**  It is by induction on the operands that are left. -/
theorem exists_reduces (t : Text) : ∃ events t' r, Reduces t events t' r := by
  induction hcount : operandCount t using Nat.strong_induction_on generalizing t with
  | h count ih =>
    cases hnext : nextOperation Operator.tiers t with
    | none => exact ⟨[], t, _, .read hnext⟩
    | some occ =>
      cases hvalue : occ.operation.value with
      | error e => exact ⟨[], t, _, .fail hnext hvalue⟩
      | ok x =>
        have hstep := operandCount_splice hnext hvalue
        obtain ⟨events, t', r, h⟩ := ih (operandCount (occ.splice x)) (by omega) (occ.splice x) rfl
        exact ⟨_, t', r, .step hnext hvalue h⟩

/-- Reducing a text does what the relation says, and only adds the steps to the record. -/
theorem Reduces.run_reduce (h : Reduces t events t' r) (s : Session) :
    (reduce t).run s = (r, { s with events := events.reverse ++ s.events }) := by
  induction h generalizing s with
  | read hnext =>
    rw [reduce_eq, hnext]
    rfl
  | fail hnext hvalue =>
    rw [reduce_eq, hnext]
    dsimp only
    rw [hvalue]
    rfl
  | @step t t' occ x events r hnext hvalue _ ih =>
    have hrun : (reduce t).run s = (reduce (occ.splice x)).run
        ((record (.reduced occ.operation.operator x (occ.splice x))).run s).2 := by
      rw [reduce_eq, hnext]
      dsimp only
      rw [hvalue]
      rfl
    rw [hrun, ih, List.reverse_cons, List.append_assoc]
    rfl

/-! ## The operands count the steps -/

/-- **The operands that are gone are as many as the steps.** -/
theorem Reduces.operandCount_eq (h : Reduces t events t' r) :
    operandCount t = operandCount t' + events.length := by
  induction h with
  | read | fail => rfl
  | step hnext hvalue _ ih =>
    rw [operandCount_splice hnext hvalue, ih, List.length_cons, Nat.add_assoc]

/-- The last operand is never taken away, since an operation has two. -/
theorem Reduces.operandCount_pos (h : Reduces t events t' r) (ht : 0 < operandCount t) :
    0 < operandCount t' := by
  induction h with
  | read | fail => exact ht
  | step hnext hvalue _ ih =>
    have htwo := (nextOperation_spec hnext).two_le_operandCount
    have hstep := operandCount_splice hnext hvalue
    exact ih (by omega)

theorem Reduces.ne_operationFailure (h : Reduces t events t' r) (u : Text) :
    r ≠ .error (.operationFailure u) := by
  rintro rfl
  have hends := (KeptByRewrites.always.reduce t {} trivial).2.2
  rw [h.run_reduce] at hends
  exact hends _ rfl

end Reduces

/-! ## What is never reported -/

theorem EvalError.Reported.ne_operationFailure {vars : Variables} {e : EvalError}
    (h : e.Reported vars) (u : Text) : e ≠ .operationFailure u := by
  rintro rfl
  cases h with
  | ofText h => exact h

/-- **Reducing a text ends, and every step is progress.**  Whatever the text is, each step lowers
the number of its operands by one, that is of the runs of digits not right behind a point, so that
the text changes.  Hence the loop stops after fewer steps than there are operands, and if there is
none, it does not start.  Neither reducing a text nor evaluating an equation fails because a step
left the text as it was. -/
theorem reduction_spec (t : Text) :
    (∀ occ x, nextOperation Operator.tiers t = some occ → occ.operation.value = .ok x →
      operandCount t = operandCount (occ.splice x) + 1 ∧ occ.splice x ≠ t) ∧
    (∃ events t' r, Reduces t events t' r ∧
      (∀ s : Session,
        (reduce t).run s = (r, { s with events := events.reverse ++ s.events })) ∧
      operandCount t = operandCount t' + events.length ∧
      (0 < operandCount t → events.length < operandCount t) ∧
      ∀ u, r ≠ .error (.operationFailure u)) ∧
    ∀ (vars : Variables) (options : EvalOptions) (pending : List Text) (s : Session) (u : Text),
      ((evaluate vars options pending t).run s).1 ≠ .error (.operationFailure u) := by
  refine ⟨fun occ x hnext hvalue => ?_, ?_, fun vars options pending s u herr => ?_⟩
  · exact ⟨operandCount_splice hnext hvalue,
      step_ne (nextOperation_spec hnext) (Operator.isFinite_of_apply_eq_ok hvalue)⟩
  · obtain ⟨events, t', r, h⟩ := exists_reduces t
    have hcount := h.operandCount_eq
    refine ⟨events, t', r, h, h.run_reduce, hcount, fun ht => ?_, h.ne_operationFailure⟩
    have hpos := h.operandCount_pos ht
    omega
  · exact ((reported_evaluateAt vars _ _ pending t s trivial).2.2 _ herr).ne_operationFailure u rfl

/-- A text that is no equation: the one step leaves a point that belonged to nothing. -/
example : operandCount ['2', '*', '1', '.', '5', '.', '5'] = 2 ∧
    (reduce ['2', '*', '1', '.', '5', '.', '5']).outcome = .ok 3.5 := by decide +kernel

end EquationFigure
