import EquationFigure.Proofs.Decimal.Bits
import EquationFigure.Proofs.Decimal.Rounding
import EquationFigure.Proofs.Decimal.Scanning

/-!
# Numbers read back

The text of a finite double is a numeral, and the numeral has the value of the double.  A zero
loses its sign, and nothing else is lost.

* `readsBack_shortest` — the point that the search for the shortest decimal ends with lies in the
  rounding interval of the magnitude.  No more is needed to read it back.
* `value_ofFloat` — the value of the numeral of a finite double is the double, `Float.unsigned`.
* `numberText_eq_text` — the text of a finite double is the text of its numeral, which is
  `wellFormed_ofFloat`.
-/

set_option autoImplicit false

namespace EquationFigure

/-! ## Zeros without a sign -/

/-- The number with a positive zero in place of the negative one. -/
def unsignedZero (x : Float) : Float := if x == 0 then 0 else x

namespace Binary

/-! ## The search ends inside the rounding interval -/

theorem five_pow_pos (n : Nat) : 0 < Nat.pow 5 n := Nat.pow_pos (by decide)

theorem pointsPerUnit_pos : 0 < pointsPerUnit := five_pow_pos 1074

theorem readsBack_of_neighbour? {tie : Tie} {x : Magnitude} {n digits : Nat}
    (h : neighbour? tie x n = some digits) : readsBack x (digits * Nat.pow 10 n) = true := by
  rw [neighbour?.eq_def] at h
  -- Neither of these is to be computed: the numbers have a thousand digits.
  obtain ⟨reads, hreads⟩ : ∃ f, f = readsBack x := ⟨_, rfl⟩
  obtain ⟨points, hpoints⟩ : ∃ p, p = x.points := ⟨_, rfl⟩
  rw [← hreads, ← hpoints] at h
  rw [← hreads]
  dsimp only at h
  split at h
  · cases h
  · rename_i hbelow _
    exact Option.some.inj h ▸ hbelow
  · rename_i _ habove
    exact Option.some.inj h ▸ habove
  · rename_i hbelow habove
    split at h
    · exact Option.some.inj h ▸ hbelow
    · exact Option.some.inj h ▸ habove
    · exact Option.some.inj h ▸ habove
    · split at h
      · exact Option.some.inj h ▸ hbelow
      · exact Option.some.inj h ▸ habove

/-- The magnitude lies in its own rounding interval. -/
theorem readsBack_points (x : Magnitude) (hx : 0 < x.significand) :
    readsBack x x.points = true := by
  have hpos : 0 < Nat.pow 2 x.shift * pointsPerUnit :=
    Nat.mul_pos (Nat.two_pow_pos _) pointsPerUnit_pos
  have hpoints : x.points = x.significand * (Nat.pow 2 x.shift * pointsPerUnit) := by
    rw [Magnitude.points, Magnitude.units, Nat.mul_assoc]
  rw [readsBack, hpoints]
  generalize Nat.pow 2 x.shift * pointsPerUnit = quarter at hpos
  have h1 : 4 * (x.significand * quarter) = 4 * x.significand * quarter := by ring
  have h2 : (4 * x.significand - if x.narrowBelow then 1 else 2) * quarter <
      4 * x.significand * quarter :=
    Nat.mul_lt_mul_of_pos_right (by split <;> omega) hpos
  have h3 : 4 * x.significand * quarter < (4 * x.significand + 2) * quarter :=
    Nat.mul_lt_mul_of_pos_right (by omega) hpos
  simp only [h1]
  split
  · simp [h2.le, h3.le]
  · simp [h2, h3]

theorem readsBack_shortestFrom (tie : Tie) {x : Magnitude} (hx : 0 < x.significand) (n : Nat) :
    readsBack x ((shortestFrom tie x n).digits * Nat.pow 10 (shortestFrom tie x n).grid) =
      true := by
  induction n with
  | zero =>
    rw [shortestFrom]
    simpa using readsBack_points x hx
  | succ n ih =>
    rw [shortestFrom]
    split
    · rename_i digits h
      exact readsBack_of_neighbour? h
    · exact ih

/-- **The shortest decimal lies in the rounding interval.** -/
theorem readsBack_shortest (tie : Tie) {x : Magnitude} (hx : 0 < x.significand) :
    readsBack x ((shortest tie x).digits * Nat.pow 10 (shortest tie x).grid) = true :=
  readsBack_shortestFrom tie hx _

/-- To lie in the rounding interval is to be rounded to the magnitude. -/
theorem catches_of_readsBack {x : Magnitude} (hx : 0 < x.significand) {c : Nat}
    (h : readsBack x c = true) : x.Catches c pointsPerUnit := by
  rw [readsBack] at h
  simp only [Nat.pow_eq, Nat.mul_comm _ pointsPerUnit] at h
  have hlow : ∀ w, w ≤ 2 → (4 * x.significand - w) * (pointsPerUnit * 2 ^ x.shift) +
      w * (pointsPerUnit * 2 ^ x.shift) = 4 * x.significand * (pointsPerUnit * 2 ^ x.shift) := by
    intro w hw
    rw [← Nat.add_mul, Nat.sub_add_cancel (by omega)]
  have hw : (if x.narrowBelow then 1 else 2) ≤ 2 := by split <;> omega
  have hlow := hlow _ hw
  by_cases heven : x.significand % 2 = 0
  · rw [if_pos heven] at h
    simp only [Bool.and_eq_true, decide_eq_true_eq] at h
    exact ⟨by omega, h.2, fun hodd => by omega⟩
  · rw [if_neg heven] at h
    simp only [Bool.and_eq_true, decide_eq_true_eq] at h
    refine ⟨by omega, by omega, fun _ => ⟨?_, h.2⟩⟩
    have hle : (if x.narrowBelow then 1 else 2) * (pointsPerUnit * 2 ^ x.shift) ≤
        2 * (pointsPerUnit * 2 ^ x.shift) := Nat.mul_le_mul_right _ hw
    omega

end Binary

namespace Numeral

open Binary

/-! ## The numeral of a grid point -/

theorem digits_ofGridPoint (negative : Bool) (p : GridPoint) :
    (ofGridPoint negative p).whole ++ (ofGridPoint negative p).fraction =
      List.replicate (1074 - p.grid + 1 - (Nat.toDigits 10 p.digits).length) '0' ++
        Nat.toDigits 10 p.digits ++ List.replicate (p.grid - 1074) '0' := by
  rw [ofGridPoint]
  exact List.take_append_drop _ _

theorem length_whole_ofGridPoint (negative : Bool) (p : GridPoint) :
    0 < (ofGridPoint negative p).whole.length ∧
      (ofGridPoint negative p).fraction.length = 1074 - p.grid := by
  have hpos := Nat.length_toDigits_pos (b := 10) (n := p.digits)
  rw [ofGridPoint]
  simp only [List.length_take, List.length_drop, List.length_append, List.length_replicate]
  omega

theorem wellFormed_ofGridPoint (negative : Bool) (p : GridPoint) :
    (ofGridPoint negative p).WellFormed := by
  have hdigits : ∀ c ∈ (ofGridPoint negative p).whole ++ (ofGridPoint negative p).fraction,
      c.isDigit = true := by
    rw [digits_ofGridPoint]
    intro c hc
    rw [List.mem_append, List.mem_append] at hc
    rcases hc with (hc | hc) | hc
    · rw [List.eq_of_mem_replicate hc]; decide
    · exact Nat.isDigit_of_mem_toDigits (by decide) (by decide) hc
    · rw [List.eq_of_mem_replicate hc]; decide
  refine ⟨fun hnil => ?_, fun c hc => hdigits c (List.mem_append_left _ hc),
    fun c hc => hdigits c (List.mem_append_right _ hc)⟩
  have := (length_whole_ofGridPoint negative p).1
  rw [hnil] at this
  exact absurd this (by decide)

theorem mantissa_ofGridPoint (negative : Bool) (p : GridPoint) :
    (ofGridPoint negative p).mantissa = p.digits * 10 ^ (p.grid - 1074) := by
  rw [mantissa, digits_ofGridPoint, Nat.ofDigitChars_append, Nat.ofDigitChars_append,
    Nat.ofDigitChars_replicate_zero, Nat.ofDigitChars_replicate_zero, Nat.mul_zero,
    Nat.ofDigitChars_ten_toDigits, Nat.mul_comm]

/-- A power of ten moved from one side of the point to the other. -/
theorem scale_gridPoint (digits grid e : Nat) :
    digits * 10 ^ (grid - e) * Nat.pow 2 e * Nat.pow 5 e =
      digits * Nat.pow 10 grid * Nat.pow 10 (e - grid) := by
  simp only [Nat.pow_eq]
  have hten : 2 ^ e * 5 ^ e = 10 ^ e := (Nat.mul_pow 2 5 e).symm
  have hgrid : 10 ^ (grid - e) * 10 ^ e = 10 ^ grid * 10 ^ (e - grid) := by
    rw [← Nat.pow_add, ← Nat.pow_add]
    congr 1
    omega
  rw [Nat.mul_assoc, hten, Nat.mul_assoc, hgrid, Nat.mul_assoc]

/-- The numeral of a grid point stands for the point. -/
theorem nearestBits_ofGridPoint (negative : Bool) (p : GridPoint) :
    nearestBits ((ofGridPoint negative p).mantissa * unitsPerOne)
        (Nat.pow 10 (ofGridPoint negative p).fraction.length) =
      nearestBits (p.digits * Nat.pow 10 p.grid) pointsPerUnit := by
  refine nearestBits_congr (Nat.pow_pos (by decide)) pointsPerUnit_pos ?_
  rw [mantissa_ofGridPoint, (length_whole_ofGridPoint negative p).2]
  exact scale_gridPoint p.digits p.grid 1074

/-! ## The numeral of a double -/

theorem wellFormed_ofFloat (x : Float) : (ofFloat x).WellFormed := by
  rw [ofFloat]
  split
  · exact ⟨by simp, by simp, by simp⟩
  · exact wellFormed_ofGridPoint _ _

/-- **A finite double reads back**, but for the sign of a zero. -/
theorem value_ofFloat {x : Float} (hx : x.isFinite = true) :
    (ofFloat x).value = unsignedZero x := by
  rw [ofFloat, unsignedZero]
  split
  · decide +kernel
  · rename_i hzero
    have hlt : magnitudeBits x < infinityBits := (isFinite_iff x).1 hx
    have hpos : 0 < magnitudeBits x := Nat.pos_of_ne_zero (mt (beq_zero_iff x).2 hzero)
    have hbits : (magnitude x).bits = magnitudeBits x := Magnitude.bits_ofBits _
    have hsig : 0 < (magnitude x).significand := by
      have hnormal := (Magnitude.normal_ofBits (magnitudeBits x)).le
      rw [Magnitude.bits] at hbits
      rw [magnitude] at hbits ⊢
      rcases hnormal with h | h
      · rw [h] at hbits; omega
      · omega
    have hround := nearestBits_eq_bits (Magnitude.normal_ofBits (magnitudeBits x))
      (by rw [Magnitude.bits_ofBits]; exact hlt.le) pointsPerUnit_pos
      (catches_of_readsBack hsig (readsBack_shortest .up hsig))
    rw [value, nearestBits_ofGridPoint]
    rw [Magnitude.bits_ofBits] at hround
    exact (congrArg (ofMagnitudeBits (signBit x)) hround).trans (ofMagnitudeBits_self hlt.le)

end Numeral

theorem numberText_eq_text {x : Float} (hx : x.isFinite = true) :
    numberText x = (Numeral.ofFloat x).text := by
  have hlt := (Binary.isFinite_iff x).1 hx
  have hnan : x.isNaN = false := by
    rw [← Bool.not_eq_true, Binary.isNaN_iff]
    omega
  have hinf : x.isInf = false := by
    rw [← Bool.not_eq_true, Binary.isInf_iff]
    omega
  rw [numberText, hnan, hinf]
  rfl

end EquationFigure
