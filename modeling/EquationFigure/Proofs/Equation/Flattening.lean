import EquationFigure.Proofs.Equation.Overflow

/-!
# What is left of an equation

Before it is reduced to a number, an equation is a text without names and without parentheses: the
values of its names and of its groups stand in their places.  An evaluation has a value exactly if
this text has one, and then the same.

* `Flattens` — what is left of a text when its groups have been resolved.
* `resolveGroups_induction` — induction along the resolving of groups, one case for each way it
  ends.
* `LeavesFlat` — what is left of an equation when its names have been replaced as well.
* `evaluateUsing_eq_ok_iff`, `escapes_iff` — the value of an equation is that of what is left of
  it; it is an infinity exactly if what is left is a number out of range.
-/

set_option autoImplicit false

namespace EquationFigure

open EvalM

/-! ## Texts without their groups -/

/-- The last text is what is left of the one before it when its groups have been replaced by their
values, the groups inside a group with `levels` levels of nesting. -/
inductive Flattens (limit levels : Nat) : Text → Text → Prop
  | flat {t : Text} : ParenFree t → Flattens limit levels t t
  | group {before after rest u : Text} : ParenFree before → ')' ∈ after →
    (resolveGroups limit levels after).outcome = .ok (.closed rest) →
    Flattens limit levels (before ++ rest) u →
    Flattens limit levels (before ++ '(' :: after) u

theorem outcome_resolveGroups_of_parenFree {limit levels : Nat} {t : Text} (h : ParenFree t) :
    (resolveGroups limit (levels + 1) t).outcome =
      match (reduce t).outcome with
      | .ok x => .ok (.value x)
      | .error e => .error e := by
  rw [resolveGroups_of_parenFree h, outcome_bind (quiet_reduce t) fun _ => quiet_pure _]
  cases (reduce t).outcome <;> rfl

theorem outcome_resolveGroups_of_open {limit levels : Nat} {before after : Text}
    (h : ParenFree before) (hafter : ')' ∈ after) :
    (resolveGroups limit (levels + 1) (before ++ '(' :: after)).outcome =
      match (resolveGroups limit levels after).outcome with
      | .ok (.value _) => .error (.parenthesisMismatch (before ++ '(' :: after))
      | .ok (.closed rest) => (resolveGroups limit (levels + 1) (before ++ rest)).outcome
      | .error e => .error e := by
  rw [resolveGroups_of_open h hafter, outcome_bind (quiet_resolveGroups _ _ _)]
  · cases (resolveGroups limit levels after).outcome with
    | error e => rfl
    | ok resolved =>
      cases resolved with
      | value x => rfl
      | closed rest => exact outcome_record_bind (quiet_resolveGroups _ _ _) _
  · intro resolved
    cases resolved with
    | value x => exact quiet_fail _
    | closed rest => exact (quiet_record _).bind fun _ => quiet_resolveGroups _ _ _

/-- The closing parenthesis of a group that has been opened ends it with its value. -/
theorem outcome_resolveGroups_of_close {limit levels : Nat} {before after : Text}
    (h : ParenFree before) :
    (resolveGroups limit (levels + 1) (before ++ ')' :: after)).outcome =
      match (reduce before).outcome with
      | .ok x => .ok (.closed (numberText x ++ after))
      | .error err => .error err := by
  rw [resolveGroups_of_close h, closeGroup, outcome_bind (quiet_reduce before)
    fun _ => (quiet_record _).bind fun _ => quiet_pure _]
  cases (reduce before).outcome <;> rfl

/-- **Induction along the resolving of groups.**  What comes of a text follows from what comes of
the text behind its first `(`, with one level less, and then from what comes of the text with the
value in the place of the group. -/
@[elab_as_elim]
theorem resolveGroups_induction {limit : Nat}
    {motive : Nat → Text → Except EvalError Resolved → Prop}
    (exhausted : ∀ t, motive 0 t (.error (.depthExceeded limit)))
    (flat : ∀ levels t x, ParenFree t → (reduce t).outcome = .ok x →
      motive (levels + 1) t (.ok (.value x)))
    (close : ∀ levels before after x, ParenFree before → (reduce before).outcome = .ok x →
      motive (levels + 1) (before ++ ')' :: after) (.ok (.closed (numberText x ++ after))))
    (stuck : ∀ levels t e, e.OfReduction → motive (levels + 1) t (.error e))
    (refused : ∀ levels before after, ParenFree before →
      (')' ∉ after ∨ ∃ x, (resolveGroups limit levels after).outcome = .ok (.value x)) →
      motive (levels + 1) (before ++ '(' :: after)
        (.error (.parenthesisMismatch (before ++ '(' :: after))))
    (fails : ∀ levels before after e, ParenFree before → ')' ∈ after →
      motive levels after (.error e) → motive (levels + 1) (before ++ '(' :: after) (.error e))
    (group : ∀ levels before after rest, ParenFree before → ')' ∈ after →
      (resolveGroups limit levels after).outcome = .ok (.closed rest) →
      motive levels after (.ok (.closed rest)) →
      motive (levels + 1) (before ++ rest)
        (resolveGroups limit (levels + 1) (before ++ rest)).outcome →
      motive (levels + 1) (before ++ '(' :: after)
        (resolveGroups limit (levels + 1) (before ++ rest)).outcome)
    (levels : Nat) (t : Text) : motive levels t (resolveGroups limit levels t).outcome := by
  induction levels generalizing t with
  | zero => exact exhausted t
  | succ levels ih =>
    induction hcount : t.count '(' using Nat.strong_induction_on generalizing t with
    | h count ihcount =>
      rcases paren_cases t with ht | ⟨before, after, hbefore, rfl⟩ | ⟨before, after, hbefore, rfl⟩
      · rw [outcome_resolveGroups_of_parenFree ht]
        cases hx : (reduce t).outcome with
        | ok x => exact flat levels t x ht hx
        | error e => exact stuck levels t e (error_of_reduce hx)
      · rw [outcome_resolveGroups_of_close hbefore]
        cases hx : (reduce before).outcome with
        | ok x => exact close levels before after x hbefore hx
        | error e => exact stuck levels _ e (error_of_reduce hx)
      · by_cases hafter : ')' ∈ after
        · rw [outcome_resolveGroups_of_open hbefore hafter]
          have hin := ih after
          cases hout : (resolveGroups limit levels after).outcome with
          | error e =>
            rw [hout] at hin
            exact fails levels before after e hbefore hafter hin
          | ok resolved =>
            rw [hout] at hin
            cases resolved with
            | value x => exact refused levels before after hbefore (.inr ⟨x, hout⟩)
            | closed rest =>
              have hlt := keepsOpen_resolveGroups limit levels after rest hout
              rw [count_append_of_parenFree hbefore, List.count_cons_self] at hcount
              exact group levels before after rest hbefore hafter hout hin
                (ihcount _ (by omega) _ (count_append_of_parenFree hbefore rest))
        · rw [resolveGroups_of_open_alone hbefore hafter]
          exact refused levels before after hbefore (.inl hafter)

theorem exists_flattens_of_value {limit levels : Nat} {t : Text} {x : Float}
    (h : (resolveGroups limit levels t).outcome = .ok (.value x)) :
    ∃ u, Flattens limit (levels - 1) t u ∧ (reduce u).outcome = .ok x := by
  revert h
  refine resolveGroups_induction ?exhausted ?flat ?close ?stuck ?refused ?fails ?group levels t
  case exhausted => exact fun _ h => by cases h
  case flat =>
    intro levels t y ht hy h
    cases h
    exact ⟨t, .flat ht, hy⟩
  case close => exact fun _ _ _ _ _ _ h => by cases h
  case stuck => exact fun _ _ _ _ h => by cases h
  case refused => exact fun _ _ _ _ _ h => by cases h
  case fails => exact fun _ _ _ _ _ _ _ h => by cases h
  case group =>
    intro levels before after rest hbefore hafter hout _ ih h
    obtain ⟨u, hu, hx⟩ := ih h
    exact ⟨u, .group hbefore hafter hout hu, hx⟩

/-- **The value of a text is that of what is left of it.** -/
theorem resolveGroups_eq_value_iff {limit levels : Nat} {t : Text} {x : Float} :
    (resolveGroups limit (levels + 1) t).outcome = .ok (.value x) ↔
      ∃ u, Flattens limit levels t u ∧ (reduce u).outcome = .ok x := by
  refine ⟨exists_flattens_of_value, ?_⟩
  rintro ⟨u, hu, hx⟩
  induction hu with
  | flat ht => rw [outcome_resolveGroups_of_parenFree ht, hx]
  | group hbefore hafter hout _ ih =>
    rw [outcome_resolveGroups_of_open hbefore hafter, hout]
    exact ih hx

theorem resolve_eq_ok_iff {limit levels : Nat} {t : Text} {x : Float} :
    (resolve limit levels t).outcome = .ok x ↔
      t.count '(' = t.count ')' ∧ ∃ u, Flattens limit levels t u ∧ (reduce u).outcome = .ok x := by
  rw [resolve, ← resolveGroups_eq_value_iff]
  by_cases hcount : t.count '(' = t.count ')'
  · rw [if_pos hcount, outcome, Attempt.run_bind, run_eq_of_quiet (quiet_resolveGroups _ _ _),
      and_iff_right hcount]
    cases (resolveGroups limit (levels + 1) t).outcome with
    | error e => exact iff_of_false (by simp) (by simp)
    | ok resolved =>
      cases resolved with
      | value y => simp
      | closed rest => exact iff_of_false (by simp) (by simp)
  · rw [if_neg hcount]
    exact iff_of_false (by simp [outcome]) fun h => hcount h.1

/-! ## Equations without their names and groups -/

/-- `u` is what is left of the equation, evaluated in the session `s`, when its names and groups
have been replaced by their values. -/
def LeavesFlat (vars : Variables) (value : Text → EvalM Float) (limit levels : Nat)
    (equation : Text) (s : Session) (u : Text) : Prop :=
  ∃ t s₁, (substitute vars value (limit - levels) (equationBody equation)).run s = (.ok t, s₁) ∧
    t.count '(' = t.count ')' ∧ Flattens limit levels t u

section Evaluation

variable {vars : Variables} {value : Text → EvalM Float} {limit levels : Nat} {equation : Text}
  {s : Session}

/-- **The value of an equation is that of what is left of it.** -/
theorem evaluateUsing_eq_ok_iff {x : Float} :
    ((evaluateUsing vars value limit levels equation).run s).1 = .ok x ↔
      ∃ u, LeavesFlat vars value limit levels equation s u ∧ (reduce u).outcome = .ok x := by
  rw [evaluateUsing, Attempt.run_bind]
  constructor
  · intro h
    cases hsub : (substitute vars value (limit - levels) (equationBody equation)).run s with
    | mk r s₁ =>
      rw [hsub] at h
      cases r with
      | error e => cases h
      | ok t =>
        have hout := ((quiet_resolve limit levels t).outcome s₁).symm.trans h
        obtain ⟨hcount, u, hu, hx⟩ := resolve_eq_ok_iff.1 hout
        exact ⟨u, ⟨t, s₁, hsub, hcount, hu⟩, hx⟩
  · rintro ⟨u, ⟨t, s₁, hsub, hcount, hu⟩, hx⟩
    rw [hsub]
    exact ((quiet_resolve limit levels t).outcome s₁).trans
      (resolve_eq_ok_iff.2 ⟨hcount, u, hu, hx⟩)

/-- **An infinity escapes exactly if a number out of range is left of the equation.** -/
theorem escapes_iff :
    (∃ x, ((evaluateUsing vars value limit levels equation).run s).1 = .ok x ∧
        x.isFinite = false) ↔
      ∃ u, LeavesFlat vars value limit levels equation s u ∧ Overflows u := by
  constructor
  · rintro ⟨x, hx, hfin⟩
    obtain ⟨u, hu, hx⟩ := evaluateUsing_eq_ok_iff.1 hx
    exact ⟨u, hu, overflows_iff.2 ⟨x, hx, hfin⟩⟩
  · rintro ⟨u, hu, hover⟩
    obtain ⟨x, hx, hfin⟩ := overflows_iff.1 hover
    exact ⟨x, evaluateUsing_eq_ok_iff.2 ⟨u, hu, hx⟩, hfin⟩

theorem isNaN_of_evaluateUsing {x : Float}
    (h : ((evaluateUsing vars value limit levels equation).run s).1 = .ok x) :
    x.isNaN = false := by
  obtain ⟨u, -, hx⟩ := evaluateUsing_eq_ok_iff.1 h
  exact isNaN_of_reduce hx

end Evaluation

end EquationFigure
