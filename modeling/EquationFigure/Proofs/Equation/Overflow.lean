import EquationFigure.Proofs.Equation.Groups
import Mathlib.Data.List.TakeWhile

/-!
# Where infinities come from

An operation never has an infinite value, but a numeral may be too great for a double and then
reads as an infinity.  That is not refused.  So a text has an infinite value exactly if it is such a
numeral from the start: once an operation has been carried out, what is left cannot become one.

* `Overflows t` — the text is a single numeral that is out of range.
* `reduce_induction` — induction along the reducing of a text, one case for each way it goes on.
* `isFinite_of_reduce`, `overflows_iff` — a text without parentheses has a finite value unless it
  overflows.
-/

set_option autoImplicit false

namespace EquationFigure

open Text EvalM

/-- The text is a single numeral that is too great for a double. -/
def Overflows (t : Text) : Prop := ∃ n, literal? t = some n ∧ ¬ n.InRange

/-! ## The digits that decide -/

/-- The first run of digits in the text. -/
def leadingDigits (t : Text) : Text := (t.dropWhile fun c => !c.isDigit).takeWhile Char.isDigit

theorem leadingDigits_append {s t : Text} (hs : ∀ c ∈ s, c.isDigit = false) :
    leadingDigits (s ++ t) = leadingDigits t := by
  rw [leadingDigits, leadingDigits, List.dropWhile_append_of_pos fun c hc => by rw [hs c hc]; rfl]

theorem leadingDigits_of_digits {run rest : Text} (hne : run ≠ [])
    (hrun : ∀ c ∈ run, c.isDigit = true) (hrest : HeadNot Char.isDigit rest) :
    leadingDigits (run ++ rest) = run := by
  obtain ⟨c, run, rfl⟩ := List.exists_cons_of_ne_nil hne
  have hc := hrun c List.mem_cons_self
  rw [leadingDigits, List.cons_append, List.dropWhile_cons_of_neg (by simp [hc]),
    ← List.cons_append, takeWhile_append_of_headNot hrun hrest]

theorem headNot_fraction {n : Numeral} {rest : Text} (h : HeadNot Char.isDigit rest) :
    HeadNot Char.isDigit ((if n.fraction = [] then [] else '.' :: n.fraction) ++ rest) := by
  split
  · exact h
  · exact headNot_cons.2 (by decide)

theorem leadingDigits_text {n : Numeral} (hn : n.WellFormed) {rest : Text}
    (h : HeadNot Char.isDigit rest) : leadingDigits (n.text ++ rest) = n.whole := by
  rw [Numeral.text, List.append_assoc, List.append_assoc, leadingDigits_append]
  · exact leadingDigits_of_digits hn.whole_ne_nil hn.isDigit_whole (headNot_fraction h)
  · intro c hc
    split at hc
    · rw [List.mem_singleton.1 hc]
      decide
    · cases hc

/-- The digits before the point of a number that a text consists of are its first digits. -/
theorem leadingDigits_of_literal? {t : Text} {n : Numeral} (h : literal? t = some n) :
    leadingDigits t = n.whole := by
  obtain ⟨hn, sign, after, rfl, hsign, hafter⟩ := literal?_spec h
  have hrest : HeadNot Char.isDigit after :=
    headNot_of_forall fun c hc => isDigit_of_isWhitespace (hafter c hc)
  rw [List.append_assoc, leadingDigits_append hsign, Numeral.unsignedText, List.append_assoc]
  exact leadingDigits_of_digits hn.whole_ne_nil hn.isDigit_whole (headNot_fraction hrest)

/-! ## After an operation -/

theorem isNumeralPart_unsignedText {n : Numeral} (hn : n.WellFormed) :
    ∀ c ∈ n.unsignedText, Numeral.isNumeralPart c = true := by
  have hdigit : ∀ c : Char, c.isDigit = true → Numeral.isNumeralPart c = true := by
    intro c hc
    rw [Numeral.isNumeralPart, hc, Bool.true_or]
  intro c hc
  rw [Numeral.unsignedText, List.mem_append] at hc
  rcases hc with hc | hc
  · exact hdigit c (hn.isDigit_whole c hc)
  · split at hc
    · cases hc
    · rcases List.mem_cons.1 hc with rfl | hc
      · decide
      · exact hdigit c (hn.isDigit_fraction c hc)

/-- If a text that is a single number falls into two parts, with no part of a number at the end of
the first, then the number is in the second, unless there is nothing but white space in it. -/
theorem literal?_of_append {before rest : Text} {n : Numeral}
    (h : literal? (before ++ rest) = some n)
    (hbefore : HeadNot Numeral.isNumeralPart before.reverse)
    (hrest : ∃ c ∈ rest, c.isWhitespace = false) : ∀ c ∈ before, c.isDigit = false := by
  obtain ⟨hn, sign, after, htext, hsign, hafter⟩ := literal?_spec h
  rw [List.append_assoc] at htext
  rcases List.append_eq_append_iff.1 htext with ⟨u, rfl, hu⟩ | ⟨u, rfl, hu⟩
  · exact fun c hc => hsign c (List.mem_append_left _ hc)
  · -- What the first part has besides the sign is a start of the numeral and what follows it.
    by_cases hnil : u = []
    · subst hnil
      simpa using hsign
    have hlast : Numeral.isNumeralPart (u.getLast hnil) = false := by
      refine hbefore _ ?_
      rw [List.reverse_append, List.head?_append, List.head?_reverse,
        List.getLast?_eq_some_getLast hnil]
      rfl
    rcases List.append_eq_append_iff.1 hu with ⟨w, -, hw⟩ | ⟨w, hw, -⟩
    · obtain ⟨c, hc, hspace⟩ := hrest
      rw [hafter c (hw ▸ List.mem_append_right _ hc)] at hspace
      cases hspace
    · have hpart := isNumeralPart_unsignedText hn (u.getLast hnil)
        (hw ▸ List.mem_append_left _ (List.getLast_mem hnil))
      rw [hpart] at hlast
      cases hlast

/-- The text of a number reads as a number. -/
theorem Numeral.inRange_ofFloat {x : Float} (hx : x.isFinite = true) :
    (Numeral.ofFloat x).InRange := by
  refine (Numeral.isFinite_value_iff (Numeral.wellFormed_ofFloat x)).1 ?_
  rw [Numeral.value_ofFloat hx, unsignedZero]
  split
  · decide +kernel
  · exact hx

/-- A number that is left over when an operation has been carried out is in range. -/
theorem not_overflows_step {t : Text} {occ : Occurrence} (h : occ.In t) {x : Float}
    (hx : x.isFinite = true) : ¬ Overflows (occ.before ++ numberText x ++ occ.after) := by
  rintro ⟨n, hn, hrange⟩
  have hwf := Numeral.wellFormed_ofFloat x
  rw [numberText_eq_text hx, List.append_assoc] at hn
  have hspace : ∃ c ∈ (Numeral.ofFloat x).text ++ occ.after, c.isWhitespace = false := by
    have hhead := Numeral.headNot_isWhitespace_text hwf occ.after
    cases htext : (Numeral.ofFloat x).text ++ occ.after with
    | nil =>
      obtain ⟨c, rest, hc⟩ := List.exists_cons_of_ne_nil hwf.whole_ne_nil
      rw [Numeral.text, hc] at htext
      simp at htext
    | cons c rest =>
      rw [htext] at hhead
      exact ⟨c, List.mem_cons_self, headNot_cons.1 hhead⟩
  -- The operation stood apart from what is before it, so the first digits are those of its value.
  have hbefore := literal?_of_append hn h.starts hspace
  have hwhole : n.whole = (Numeral.ofFloat x).whole := by
    rw [← leadingDigits_of_literal? hn, leadingDigits_append hbefore,
      leadingDigits_text hwf h.stops.digit]
  refine hrange ?_
  rw [Numeral.InRange, hwhole]
  exact Numeral.inRange_ofFloat hx

/-! ## The value of a text without parentheses -/

theorem outcome_reduce_of_none {t : Text} (h : nextOperation Operator.tiers t = none) :
    (reduce t).outcome = readValue t := by
  rw [reduce_eq, h]
  rfl

theorem outcome_reduce_of_some {t : Text} {occ : Occurrence}
    (h : nextOperation Operator.tiers t = some occ) :
    (reduce t).outcome =
      match occ.operation.value with
      | .ok x => (reduce (occ.before ++ numberText x ++ occ.after)).outcome
      | .error e => .error e := by
  rw [reduce_eq, h]
  obtain ⟨before, operation, after⟩ := occ
  refine (outcome_bind (quiet_ofExcept _) fun x => (quiet_record _).bind fun _ =>
    quiet_reduce _).trans ?_
  cases hvalue : operation.value with
  | error e => rfl
  | ok x => exact outcome_record_bind (quiet_reduce _) _

/-- **Induction along a reduction.**  The text is read as a number, or its next operation has no
value, or it is reduced as the text is that has the value in the place of the operation. -/
@[elab_as_elim]
theorem reduce_induction {motive : Text → Except EvalError Float → Prop}
    (read : ∀ t, nextOperation Operator.tiers t = none → motive t (readValue t))
    (fail : ∀ t occ e, nextOperation Operator.tiers t = some occ → occ.operation.value = .error e →
      motive t (.error e))
    (step : ∀ t occ x, nextOperation Operator.tiers t = some occ → occ.operation.value = .ok x →
      motive (occ.before ++ numberText x ++ occ.after)
        (reduce (occ.before ++ numberText x ++ occ.after)).outcome →
      motive t (reduce (occ.before ++ numberText x ++ occ.after)).outcome)
    (t : Text) : motive t (reduce t).outcome := by
  induction hcount : operandCount t using Nat.strong_induction_on generalizing t with
  | h count ih =>
    cases hnext : nextOperation Operator.tiers t with
    | none =>
      rw [outcome_reduce_of_none hnext]
      exact read t hnext
    | some occ =>
      rw [outcome_reduce_of_some hnext]
      cases hvalue : occ.operation.value with
      | error e => exact fail t occ e hnext hvalue
      | ok x =>
        have hlt := operandCount_step (nextOperation_spec hnext)
          (Operator.isFinite_of_apply_eq_ok hvalue)
        exact step t occ x hnext hvalue (ih _ (by omega) _ rfl)

theorem readValue_eq_ok {t : Text} {x : Float} (h : readValue t = .ok x) :
    ∃ n, literal? t = some n ∧ x = n.value := by
  rw [readValue] at h
  split at h
  · cases h
  · cases hn : literal? t with
    | none =>
      rw [hn] at h
      cases h
    | some n =>
      rw [hn] at h
      cases h
      exact ⟨n, rfl, rfl⟩

/-- Unless the text overflows, its value is finite. -/
theorem isFinite_of_reduce {t : Text} (ht : ¬ Overflows t) {x : Float}
    (h : (reduce t).outcome = .ok x) : x.isFinite = true := by
  revert ht h
  refine reduce_induction ?read ?fail ?step t
  case read =>
    intro t _ ht h
    obtain ⟨n, hn, rfl⟩ := readValue_eq_ok h
    rw [Numeral.isFinite_value_iff (literal?_spec hn).1]
    by_contra hrange
    exact ht ⟨n, hn, hrange⟩
  case fail => exact fun _ _ _ _ _ _ h => by cases h
  case step =>
    intro t occ y hnext hvalue ih _ h
    exact ih (not_overflows_step (nextOperation_spec hnext)
      (Operator.isFinite_of_apply_eq_ok hvalue)) h

/-- A text that is a single number has no operation. -/
theorem nextOperation_of_literal? {tiers : List (List Operator)} {t : Text} {n : Numeral}
    (h : literal? t = some n) : nextOperation tiers t = none := by
  cases hnext : nextOperation tiers t with
  | none => rfl
  | some occ =>
    obtain ⟨before, ⟨lhs, s, op, s', rhs⟩, after⟩ := occ
    have hin := nextOperation_spec hnext
    have ho := hin.wellFormed
    -- The text up to the right operand has digits, but no part of a number at its end.
    have htext : t = (before ++ lhs.text ++ s ++ (op.symbol ++ s')) ++ (rhs.text ++ after) := by
      simpa [Operation.text] using hin.text
    have hend : HeadNot Numeral.isNumeralPart
        (before ++ lhs.text ++ s ++ (op.symbol ++ s')).reverse := by
      have hlast := op.getLastD_symbol_append ho.spaceAfter ' '
      rw [List.getLastD_eq_getLast?, ← List.head?_reverse] at hlast
      rw [List.reverse_append]
      refine headNot_append_of_ne_nil ?_ (by cases op <;> simp [Operator.symbol])
      intro c hc
      rwa [Option.mem_def.1 hc] at hlast
    have hspace : ∃ c ∈ rhs.text ++ after, c.isWhitespace = false := by
      obtain ⟨c, rest, hc⟩ := List.exists_cons_of_ne_nil ho.rhs.whole_ne_nil
      have hmem : c ∈ rhs.whole := by rw [hc]; exact List.mem_cons_self
      exact ⟨c, by simp [Numeral.text, hmem], isWhitespace_of_isDigit (ho.rhs.isDigit_whole c hmem)⟩
    have hdigits := literal?_of_append (htext ▸ h) hend hspace
    obtain ⟨c, rest, hc⟩ := List.exists_cons_of_ne_nil ho.lhs.whole_ne_nil
    have hmem : c ∈ lhs.whole := by rw [hc]; exact List.mem_cons_self
    have hfalse := hdigits c (by simp [Numeral.text, hmem])
    rw [ho.lhs.isDigit_whole c hmem] at hfalse
    cases hfalse

theorem isBlank_of_trim_eq_nil {t : Text} (h : trim t = []) : ∀ c ∈ t, isBlank c = true := by
  rw [trim, trimEnd, List.reverse_eq_nil_iff, List.dropWhile_eq_nil_iff, trimStart] at h
  intro c hc
  rw [← List.takeWhile_append_dropWhile (p := isBlank) (l := t), List.mem_append] at hc
  rcases hc with hc | hc
  · exact of_mem_takeWhile hc
  · exact h c (List.mem_reverse.2 hc)

theorem readValue_of_literal? {t : Text} {n : Numeral} (h : literal? t = some n) :
    readValue t = .ok n.value := by
  obtain ⟨hn, sign, after, rfl, -, -⟩ := literal?_spec h
  have hne : trim (sign ++ n.unsignedText ++ after) ≠ [] := by
    intro hnil
    obtain ⟨c, rest, hc⟩ := List.exists_cons_of_ne_nil hn.whole_ne_nil
    have hmem : c ∈ n.whole := by rw [hc]; exact List.mem_cons_self
    have hblank := isBlank_of_trim_eq_nil hnil c (by simp [Numeral.unsignedText, hmem])
    rw [isBlank_of_isDigit (hn.isDigit_whole c hmem)] at hblank
    cases hblank
  rw [readValue, if_neg hne, h]

/-- **A text overflows exactly if its value is an infinity.** -/
theorem overflows_iff {t : Text} :
    Overflows t ↔ ∃ x, (reduce t).outcome = .ok x ∧ x.isFinite = false := by
  constructor
  · rintro ⟨n, hn, hrange⟩
    refine ⟨n.value, ?_, ?_⟩
    · rw [outcome_reduce_of_none (nextOperation_of_literal? hn), readValue_of_literal? hn]
    · rwa [← Bool.not_eq_true, Numeral.isFinite_value_iff (literal?_spec hn).1]
  · rintro ⟨x, hx, hfin⟩
    by_contra ht
    rw [isFinite_of_reduce ht hx] at hfin
    cases hfin

/-- No text has the value that is not a number. -/
theorem isNaN_of_reduce {t : Text} {x : Float} (h : (reduce t).outcome = .ok x) :
    x.isNaN = false := by
  by_cases ht : Overflows t
  · obtain ⟨n, hn, -⟩ := ht
    rw [outcome_reduce_of_none (nextOperation_of_literal? hn), readValue_of_literal? hn] at h
    cases h
    exact n.isNaN_value
  · exact isNaN_of_isFinite (isFinite_of_reduce ht h)

end EquationFigure
