import EquationFigure.Proofs.Decimal.RoundTrip

/-!
# Numbers, infinities and their texts

Equations write and read numbers only, but a double may also be an infinity: a numeral too great
for a double reads as one.  What is written for it is no numeral.

* `Numeral.InRange` — whether a numeral reads as a number; `isFinite_value_iff`.
* `isNumber_numberText_iff` — a double is written as a numeral exactly if it is finite.
* `numberText_of_not_isFinite` — what is written otherwise.
-/

set_option autoImplicit false

namespace EquationFigure

open Binary

/-! ## Infinities -/

/-- Positive infinity. -/
def plusInfinity : Float := ofMagnitudeBits false infinityBits

/-- Negative infinity. -/
def minusInfinity : Float := ofMagnitudeBits true infinityBits

/-- A double that is neither finite nor not a number is an infinity. -/
theorem eq_infinity_of_not_isFinite {x : Float} (hfin : x.isFinite = false)
    (hnan : x.isNaN = false) : x = plusInfinity ∨ x = minusInfinity := by
  have h1 : ¬ magnitudeBits x < infinityBits := by
    rw [← isFinite_iff, hfin]
    exact Bool.false_ne_true
  have h2 : ¬ infinityBits < magnitudeBits x := by
    rw [← isNaN_iff, hnan]
    exact Bool.false_ne_true
  have hbits : magnitudeBits x = infinityBits := by omega
  have hself := ofMagnitudeBits_self (x := x) hbits.le
  rw [hbits] at hself
  cases hsign : signBit x with
  | false => exact .inl (hself.symm.trans (by rw [hsign, plusInfinity]))
  | true => exact .inr (hself.symm.trans (by rw [hsign, minusInfinity]))

theorem isNaN_of_isFinite {x : Float} (h : x.isFinite = true) : x.isNaN = false := by
  rw [isFinite_iff] at h
  rw [← Bool.not_eq_true, isNaN_iff]
  omega

@[simp] theorem isFinite_plusInfinity : plusInfinity.isFinite = false := by decide +kernel

@[simp] theorem isFinite_minusInfinity : minusInfinity.isFinite = false := by decide +kernel

/-- The name that infinities are written with. -/
def infName : Text := ['i', 'n', 'f']

theorem numberText_plusInfinity : numberText plusInfinity = infName := by decide +kernel

theorem numberText_minusInfinity : numberText minusInfinity = '-' :: infName := by decide +kernel

/-- A double that is no finite number is written with one of three words. -/
theorem numberText_of_not_isFinite {x : Float} (h : x.isFinite = false) :
    numberText x ∈ [['N', 'a', 'N'], infName, '-' :: infName] := by
  cases hnan : x.isNaN with
  | true =>
    rw [numberText, if_pos hnan]
    exact List.mem_cons_self
  | false =>
    rcases eq_infinity_of_not_isFinite h hnan with rfl | rfl
    · rw [numberText_plusInfinity]
      simp
    · rw [numberText_minusInfinity]
      simp

/-! ## Numerals too great for a double -/

namespace Numeral

/-- The whole part of the numeral is below the middle between the greatest double and the next power
of two.  What follows the point makes no difference, as the middle is a whole number. -/
def InRange (n : Numeral) : Prop := Nat.ofDigitChars 10 n.whole 0 < (2 ^ 54 - 1) * 2 ^ 970

theorem ofDigitChars_lt {t : Text} (h : ∀ c ∈ t, c.isDigit = true) :
    Nat.ofDigitChars 10 t 0 < 10 ^ t.length := by
  induction t with
  | nil => exact Nat.one_pos
  | cons c t ih =>
    have hc : c.toNat - '0'.toNat < 10 := by
      have hrange := h c List.mem_cons_self
      simp [Char.isDigit, UInt32.le_iff_toNat_le] at hrange
      change c.toNat - 48 < 10
      omega
    have ht := ih fun d hd => h d (List.mem_cons_of_mem c hd)
    rw [Nat.ofDigitChars_cons, Nat.ofDigitChars_eq_ofDigitChars_zero, List.length_cons, pow_succ,
      Nat.mul_zero, Nat.zero_add]
    have := Nat.mul_le_mul_left (10 ^ t.length) (Nat.le_of_lt_succ hc)
    omega

theorem wellFormed_digit {c : Char} (hc : c.isDigit = true) : WellFormed ⟨false, [c], []⟩ :=
  ⟨List.cons_ne_nil _ _, fun _ hd => List.mem_singleton.1 hd ▸ hc, nofun⟩

theorem inRange_digit {c : Char} (hc : c.isDigit = true) : InRange ⟨false, [c], []⟩ := by
  have hlt : Nat.ofDigitChars 10 [c] 0 < 10 :=
    ofDigitChars_lt fun _ hd => List.mem_singleton.1 hd ▸ hc
  exact hlt.trans (by decide +kernel)

theorem mantissa_lt_iff {n : Numeral} (hn : n.WellFormed) (bound : Nat) :
    n.mantissa < bound * 10 ^ n.fraction.length ↔ Nat.ofDigitChars 10 n.whole 0 < bound := by
  have hfraction := ofDigitChars_lt hn.isDigit_fraction
  rw [mantissa, Nat.ofDigitChars_append, Nat.ofDigitChars_eq_ofDigitChars_zero, Nat.mul_comm bound]
  generalize 10 ^ n.fraction.length = scale at hfraction
  constructor
  · intro h
    exact Nat.lt_of_mul_lt_mul_left (a := scale) (by omega)
  · intro h
    have := Nat.mul_le_mul_left scale (Nat.succ_le_of_lt h)
    rw [Nat.mul_succ] at this
    omega

theorem mul_two_pow_lt_iff (e f k m c d : Nat) (hk : k = f + e) :
    m * Nat.pow 2 e < c * 2 ^ k * Nat.pow 10 d ↔ m < c * 2 ^ f * 10 ^ d := by
  have h : c * 2 ^ k * Nat.pow 10 d = c * 2 ^ f * 10 ^ d * 2 ^ e := by
    rw [hk, pow_add, Nat.pow_eq]
    ring
  rw [h]
  exact Nat.mul_lt_mul_right (Nat.two_pow_pos e)

theorem magnitudeBits_value (n : Numeral) :
    magnitudeBits n.value =
      nearestBits (n.mantissa * unitsPerOne) (Nat.pow 10 n.fraction.length) :=
  magnitudeBits_ofMagnitudeBits (nearestBits_le _ _) n.negative

/-- **A numeral reads as a number exactly if it is in range.** -/
theorem isFinite_value_iff {n : Numeral} (hn : n.WellFormed) :
    n.value.isFinite = true ↔ n.InRange := by
  have hden : 0 < Nat.pow 10 n.fraction.length := Nat.pow_pos (by decide)
  rw [isFinite_iff, magnitudeBits_value, nearestBits_lt_iff hden]
  exact (mul_two_pow_lt_iff 1074 970 2044 n.mantissa (2 ^ 54 - 1) n.fraction.length rfl).trans
    (mantissa_lt_iff hn _)

theorem isNaN_value (n : Numeral) : n.value.isNaN = false := by
  have hle := nearestBits_le (n.mantissa * unitsPerOne) (Nat.pow 10 n.fraction.length)
  rw [← Bool.not_eq_true, isNaN_iff, magnitudeBits_value]
  omega

end Numeral

/-! ## What is written for a double -/

/-- The text is one numeral and nothing else. -/
def IsNumber (t : Text) : Prop := ∃ n, Numeral.scan t = some (n, [])

theorem isNumber_iff {t : Text} : IsNumber t ↔ ∃ n : Numeral, n.WellFormed ∧ n.text = t := by
  constructor
  · rintro ⟨n, hn⟩
    obtain ⟨hwf, -, ht⟩ := Numeral.scan_eq_some_iff.1 hn
    exact ⟨n, hwf, by rw [ht, List.append_nil]⟩
  · rintro ⟨n, hwf, rfl⟩
    exact ⟨n, Numeral.scan_eq_some_iff.2
      ⟨hwf, Numeral.stopsAt_of_headNot Text.headNot_nil, (List.append_nil _).symm⟩⟩

/-- **A double is written as a numeral exactly if it is finite.** -/
theorem isNumber_numberText_iff (x : Float) : IsNumber (numberText x) ↔ x.isFinite = true := by
  constructor
  · rintro ⟨n, hn⟩
    by_contra hfin
    rw [Bool.not_eq_true] at hfin
    have hwords : ∀ w ∈ [['N', 'a', 'N'], infName, '-' :: infName], Numeral.scan w = none := by
      decide
    rw [hwords _ (numberText_of_not_isFinite hfin)] at hn
    cases hn
  · intro hfin
    rw [numberText_eq_text hfin]
    exact isNumber_iff.2 ⟨_, Numeral.wellFormed_ofFloat x, rfl⟩

/-- Whether the character occurs in numerals. -/
def isNumberPart (c : Char) : Bool := c.isDigit || c == '.' || c == '-'

theorem Numeral.WellFormed.isNumberPart {n : Numeral} (hn : n.WellFormed) :
    ∀ c ∈ n.text, EquationFigure.isNumberPart c = true := by
  have hdigit : ∀ c : Char, c.isDigit = true → EquationFigure.isNumberPart c = true := by
    intro c hc
    rw [EquationFigure.isNumberPart, hc, Bool.true_or, Bool.true_or]
  intro c hc
  rw [Numeral.text, List.mem_append, List.mem_append] at hc
  rcases hc with (hc | hc) | hc
  · split at hc
    · rw [List.mem_singleton.1 hc]
      decide
    · cases hc
  · exact hdigit c (hn.isDigit_whole c hc)
  · split at hc
    · cases hc
    · rcases List.mem_cons.1 hc with rfl | hc
      · decide
      · exact hdigit c (hn.isDigit_fraction c hc)

/-- A number is written with digits, a point and a minus sign only. -/
theorem isNumberPart_numberText {x : Float} (hx : x.isFinite = true) :
    ∀ c ∈ numberText x, isNumberPart c = true := by
  rw [numberText_eq_text hx]
  exact (Numeral.wellFormed_ofFloat x).isNumberPart

end EquationFigure
