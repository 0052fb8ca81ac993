import EquationFigure.Proofs.Equation.Overflow

/-!
# The canonical texts of numbers

Each value is spliced into an equation as text and read again later, so nothing may be lost on the
way.  Nothing is, but for the sign of a zero, and hence every number has a text of its own.

* `numberText_eq_iff` — which numbers are written alike.
* `numberText_round_trip` — what is written for a number is a numeral, which reads as the number.
-/

set_option autoImplicit false

namespace EquationFigure

open Text

/-! ## Up to the sign of a zero -/

section UnsignedZero

variable {x y : Float}

theorem unsignedZero_of_beq (h : (x == 0) = true) : unsignedZero x = 0 := if_pos h

theorem unsignedZero_of_not_beq (h : (x == 0) = false) : unsignedZero x = x :=
  if_neg (by rw [h]; exact Bool.false_ne_true)

/-- Taking the sign from a zero once is enough. -/
theorem unsignedZero_unsignedZero (x : Float) : unsignedZero (unsignedZero x) = unsignedZero x := by
  cases hx : x == 0 with
  | true => rw [unsignedZero_of_beq hx, unsignedZero_of_beq (by decide +kernel)]
  | false => rw [unsignedZero_of_not_beq hx, unsignedZero_of_not_beq hx]

/-- What is lost of a double with the sign of a zero. -/
theorem unsignedZero_eq_iff :
    unsignedZero y = unsignedZero x ↔ y = x ∨ (y == 0) = true ∧ (x == 0) = true := by
  constructor
  · intro h
    cases hx : x == 0 with
    | true =>
      rw [unsignedZero_of_beq hx] at h
      cases hy : y == 0 with
      | true => exact .inr ⟨rfl, rfl⟩
      | false =>
        rw [unsignedZero_of_not_beq hy] at h
        rw [h] at hy
        exact absurd hy (by decide +kernel)
    | false =>
      rw [unsignedZero_of_not_beq hx] at h
      cases hy : y == 0 with
      | true =>
        rw [unsignedZero_of_beq hy] at h
        rw [← h] at hx
        exact absurd hx (by decide +kernel)
      | false => exact .inl (by rwa [unsignedZero_of_not_beq hy] at h)
  · rintro (rfl | ⟨hy, hx⟩)
    · rfl
    · rw [unsignedZero_of_beq hy, unsignedZero_of_beq hx]

end UnsignedZero

/-! ## Writing and reading -/

section NumberText

variable {x y : Float}

theorem literal?_numberText (hx : x.isFinite = true) :
    literal? (numberText x) = some (Numeral.ofFloat x) := by
  have h := literal?_append (Numeral.wellFormed_ofFloat x) isSpace_nil isSpace_nil
  rwa [List.nil_append, List.append_nil, ← numberText_eq_text hx] at h

/-- **The text of a number reads as the number**, but for the sign of a zero. -/
theorem readValue_numberText (hx : x.isFinite = true) :
    readValue (numberText x) = .ok (unsignedZero x) := by
  rw [readValue_of_literal? (literal?_numberText hx), Numeral.value_ofFloat hx]

/-- Both zeros are written alike. -/
theorem numberText_of_beq (h : (x == 0) = true) : numberText x = ['0'] := by
  have hfin : x.isFinite = true := by
    rw [Binary.isFinite_iff, (Binary.beq_zero_iff x).1 h]
    decide +kernel
  rw [numberText_eq_text hfin, Numeral.ofFloat, if_pos h]
  rfl

/-- **Only the two zeros are written alike.** -/
theorem numberText_eq_iff (hx : x.isFinite = true) (hy : y.isFinite = true) :
    numberText y = numberText x ↔ y = x ∨ (y == 0) = true ∧ (x == 0) = true := by
  constructor
  · intro h
    have hread := readValue_numberText hy
    rw [h, readValue_numberText hx] at hread
    exact unsignedZero_eq_iff.1 (Except.ok.inj hread).symm
  · rintro (rfl | ⟨hy, hx⟩)
    · rfl
    · rw [numberText_of_beq hy, numberText_of_beq hx]

/-- **Numbers survive being written and read.**  What is written for a number is one numeral,
without an exponent or a bare point, and it reads as the same double, but a negative zero comes back
as the positive one.  So two numbers are written alike only if they are the same or both are zeros,
and any text that reads as the number may be replaced by what is written for it. -/
theorem numberText_round_trip (hx : x.isFinite = true) :
    IsNumber (numberText x) ∧ readValue (numberText x) = .ok (if x == 0 then 0 else x) ∧
      (∀ y : Float, y.isFinite = true →
        (numberText y = numberText x ↔ y = x ∨ (y == 0) = true ∧ (x == 0) = true)) ∧
      ∀ t, readValue t = .ok x →
        (readValue (numberText x)).map unsignedZero = (readValue t).map unsignedZero := by
  refine ⟨(isNumber_numberText_iff x).2 hx, readValue_numberText hx,
    fun y hy => numberText_eq_iff hx hy, fun t ht => ?_⟩
  rw [ht, readValue_numberText hx]
  exact congrArg Except.ok (unsignedZero_unsignedZero x)

end NumberText

/-- A tenth is written as such, whichever way it was written before. -/
theorem numberText_round_trip_tenth :
    (0.1 : Float).isFinite = true ∧ numberText 0.1 = ['0', '.', '1'] ∧
      readValue ['0', '.', '1'] = .ok 0.1 ∧
      (readValue ['0', '.', '1']).map unsignedZero =
        (readValue [' ', '+', '0', '0', '.', '1', '0']).map unsignedZero := by
  have hfin : (0.1 : Float).isFinite = true := by decide +kernel
  have htext : numberText 0.1 = ['0', '.', '1'] := by decide +kernel
  obtain ⟨-, hread, -, hreplace⟩ := numberText_round_trip hfin
  rw [htext, if_neg (by decide +kernel)] at hread
  rw [htext] at hreplace
  exact ⟨hfin, htext, hread, hreplace _ (by decide +kernel)⟩

end EquationFigure
