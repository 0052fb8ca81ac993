import EquationFigure.Decimal.Binary
import Mathlib.Tactic.Linarith
import Mathlib.Tactic.Ring

/-!
# Rounding to the nearest double

What `Binary.nearestBits` does, said without its formula.

* `RoundsTo num den q` — `q` is the whole number that `num / den` rounds to, as an inequality
  between natural numbers.  `roundsTo_iff` says that this is what `roundHalfEven` computes.
* `Magnitude.Normal` — the magnitudes that bits decode to; `Magnitude.bits` encodes them again.
* `nearestBits_eq_bits` — everything in the rounding interval of a magnitude is rounded to it.  The
  one case that takes thought is the lower half of the interval below a power of two, where the
  doubles are twice as dense.
* `nearestBits_lt_iff` — a fraction is rounded to a finite double exactly if it is below
  `overflowThreshold`.
-/

set_option autoImplicit false

namespace EquationFigure
namespace Binary

/-! ## Rounding to a whole number -/

/-- `q` is at most half a unit away from `num / den`, and less than that if it is odd. -/
structure RoundsTo (num den q : Nat) : Prop where
  /-- `q - 1 / 2` is not above the fraction. -/
  low : 2 * q * den ≤ 2 * num + den
  /-- `q + 1 / 2` is not below the fraction. -/
  high : 2 * num ≤ (2 * q + 1) * den
  /-- An odd number is not rounded to from exactly half a unit away. -/
  odd : q % 2 = 1 → 2 * q * den < 2 * num + den ∧ 2 * num < (2 * q + 1) * den

theorem RoundsTo.unique {num den q r : Nat} (hq : RoundsTo num den q)
    (hr : RoundsTo num den r) (hden : 0 < den) : q = r := by
  have key : ∀ {a b : Nat}, RoundsTo num den a → RoundsTo num den b → a ≤ b := by
    intro a b ha hb
    by_contra hlt
    have hab : b + 1 ≤ a := by omega
    have h1 : (2 * b + 2) * den ≤ 2 * a * den := Nat.mul_le_mul_right den (by omega)
    have h2 := ha.low
    have h3 := hb.high
    have h4 : (2 * b + 1) * den + den = (2 * b + 2) * den := by ring
    -- both are exactly half a unit away, so both would have to be even
    have h5 : a = b + 1 := by
      by_contra hne
      have h6 : (2 * b + 4) * den ≤ 2 * a * den := Nat.mul_le_mul_right den (by omega)
      have h7 : (2 * b + 4) * den = (2 * b + 2) * den + 2 * den := by ring
      omega
    rcases Nat.mod_two_eq_zero_or_one a with h | h
    · have := (hb.odd (by omega)).2
      omega
    · have := (ha.odd h).1
      omega
  exact Nat.le_antisymm (key hq hr) (key hr hq)

section RoundsTo

variable {num den q c : Nat}

/-- Rounding does not go below a whole number that is not above the fraction. -/
theorem RoundsTo.le_of_mul_le (h : RoundsTo num den q) (hden : 0 < den) (hc : c * den ≤ num) :
    c ≤ q := by
  by_contra hlt
  have h1 : (2 * q + 1) * den < 2 * c * den := Nat.mul_lt_mul_of_pos_right (by omega) hden
  have h2 : 2 * c * den = 2 * (c * den) := Nat.mul_assoc _ _ _
  have h3 := h.high
  omega

/-- Less than half a unit above a whole number, the fraction is not rounded up. -/
theorem RoundsTo.le_of_lt_half (h : RoundsTo num den q) (hc : 2 * num < (2 * c + 1) * den) :
    q ≤ c := by
  by_contra hlt
  have h1 : (2 * c + 2) * den ≤ 2 * q * den := Nat.mul_le_mul_right _ (by omega)
  have h2 : (2 * c + 2) * den = (2 * c + 1) * den + den := by ring
  have h3 := h.low
  omega

/-- Half a unit above an odd number, the fraction is rounded up. -/
theorem RoundsTo.lt_of_half_le (h : RoundsTo num den q) (hden : 0 < den) (hodd : c % 2 = 1)
    (hc : (2 * c + 1) * den ≤ 2 * num) : c < q := by
  by_contra hle
  rcases Nat.eq_or_lt_of_le (Nat.le_of_not_lt hle) with rfl | hlt
  · have h1 := (h.odd hodd).2
    omega
  · have h1 : (2 * q + 1) * den < (2 * c + 1) * den :=
      Nat.mul_lt_mul_of_pos_right (by omega) hden
    have h2 := h.high
    omega

end RoundsTo

theorem roundsTo_roundHalfEven (num : Nat) {den : Nat} (hden : 0 < den) :
    RoundsTo num den (roundHalfEven num den) := by
  have hdiv := Nat.div_add_mod num den
  have hmod := Nat.mod_lt num hden
  have hq : (num / den) * den = den * (num / den) := Nat.mul_comm _ _
  rw [roundHalfEven]
  split
  · rename_i h
    have e1 : 2 * (num / den) * den = 2 * (den * (num / den)) := by ring
    have e2 : (2 * (num / den) + 1) * den = 2 * (den * (num / den)) + den := by ring
    refine ⟨by omega, by omega, fun hodd => ⟨by omega, ?_⟩⟩
    rcases h with h | h
    · omega
    · omega
  · rename_i h
    have e1 : 2 * (num / den + 1) * den = 2 * (den * (num / den)) + 2 * den := by ring
    have e2 : (2 * (num / den + 1) + 1) * den = 2 * (den * (num / den)) + 3 * den := by ring
    exact ⟨by omega, by omega, fun hodd => ⟨by omega, by omega⟩⟩

theorem roundsTo_iff {num den q : Nat} (hden : 0 < den) :
    RoundsTo num den q ↔ roundHalfEven num den = q :=
  ⟨fun h => (roundsTo_roundHalfEven num hden).unique h hden,
    fun h => h ▸ roundsTo_roundHalfEven num hden⟩

/-! ## Magnitudes and their bits -/

namespace Magnitude

/-- The magnitude is in the form in which bits are decoded: the significand has fifty-three digits
unless the shift is as small as it can be. -/
structure Normal (x : Magnitude) : Prop where
  /-- The significand has at most fifty-three binary digits. -/
  lt : x.significand < 2 ^ 53
  /-- It has exactly as many, unless the shift is zero. -/
  le : x.shift = 0 ∨ 2 ^ 52 ≤ x.significand

/-- The bits of a magnitude. -/
def bits (x : Magnitude) : Nat := x.shift * 2 ^ 52 + x.significand

theorem normal_ofBits (b : Nat) : (ofBits b).Normal := by
  have hmod : b % 2 ^ 52 < 2 ^ 52 := Nat.mod_lt _ (by decide)
  rw [ofBits]
  simp only [Nat.pow_eq]
  split
  · exact ⟨by simp only; omega, .inl rfl⟩
  · exact ⟨by simp only; omega, .inr (by simp only; omega)⟩

theorem bits_ofBits (b : Nat) : (ofBits b).bits = b := by
  rw [ofBits]
  simp only [Nat.pow_eq]
  split <;> simp only [bits] <;> omega

end Magnitude

/-! ## Rounding to a double -/

theorem log2_eq_of_lt_two_pow {n k : Nat} (hlow : 2 ^ k ≤ n) (hhigh : n < 2 ^ (k + 1)) :
    Nat.log2 n = k :=
  (Nat.log2_eq_iff (by have := Nat.two_pow_pos k; omega)).2 ⟨hlow, hhigh⟩

/-- The fraction in the scale in which it is rounded. -/
theorem nearestBits_eq {num den shift : Nat} (h : Nat.log2 (num / den) - 52 = shift) :
    nearestBits num den = min infinityBits
      (shift * 2 ^ 52 + roundHalfEven num (den * 2 ^ shift)) := by
  rw [nearestBits]
  simp only [Nat.pow_eq, h]

theorem nearestBits_le (num den : Nat) : nearestBits num den ≤ infinityBits := by
  rw [nearestBits]
  exact Nat.min_le_left _ _

/-- Rounding does not depend on how the fraction is written. -/
theorem nearestBits_mul_right (num den : Nat) {k : Nat} (hk : 0 < k) :
    nearestBits (num * k) (den * k) = nearestBits num den := by
  have hdiv : num * k / (den * k) = num / den := Nat.mul_div_mul_right _ _ hk
  have hround : ∀ n d, roundHalfEven (n * k) (d * k) = roundHalfEven n d := by
    intro n d
    have h1 : n * k / (d * k) = n / d := Nat.mul_div_mul_right _ _ hk
    have h2 : 2 * (n % d * k) < d * k ↔ 2 * (n % d) < d := by
      rw [← Nat.mul_assoc]
      exact Nat.mul_lt_mul_right hk
    have h3 : 2 * (n % d * k) = d * k ↔ 2 * (n % d) = d := by
      rw [← Nat.mul_assoc]
      exact Nat.mul_left_inj (by omega)
    simp only [roundHalfEven, Nat.mul_mod_mul_right, h1, h2, h3]
  rw [nearestBits_eq rfl, nearestBits_eq rfl, hdiv, Nat.mul_right_comm, hround]

theorem nearestBits_congr {num den num' den' : Nat} (hden : 0 < den) (hden' : 0 < den')
    (h : num * den' = num' * den) : nearestBits num den = nearestBits num' den' := by
  rw [← nearestBits_mul_right num den hden', h, Nat.mul_comm den den',
    nearestBits_mul_right num' den' hden]

/-- The number of binary digits of the fraction decides the shift. -/
theorem log2_div_sub {num den k : Nat} (hden : 0 < den)
    (hlow : k = 0 ∨ 2 ^ 52 * (den * 2 ^ k) ≤ num) (hhigh : num < 2 ^ 53 * (den * 2 ^ k)) :
    Nat.log2 (num / den) - 52 = k := by
  have hlt : num / den < 2 ^ (k + 52 + 1) := by
    rw [Nat.div_lt_iff_lt_mul hden]
    calc num < 2 ^ 53 * (den * 2 ^ k) := hhigh
      _ = 2 ^ (k + 52 + 1) * den := by ring
  rcases hlow with rfl | hlow
  · have : Nat.log2 (num / den) < 53 := by
      by_cases h0 : num / den = 0
      · rw [h0]; decide
      · exact (Nat.log2_lt h0).2 hlt
    omega
  · have hle : 2 ^ (k + 52) ≤ num / den := by
      rw [Nat.le_div_iff_mul_le hden]
      calc 2 ^ (k + 52) * den = 2 ^ 52 * (den * 2 ^ k) := by ring
        _ ≤ num := hlow
    rw [log2_eq_of_lt_two_pow hle hlt]
    omega

/-- `num / den` is in the rounding interval of the magnitude, whose ends are quarters of the last
place away and belong to it only if the significand is even. -/
structure Magnitude.Catches (x : Magnitude) (num den : Nat) : Prop where
  /-- Not too small.  Below a power of two the interval is only half as long. -/
  low : 4 * x.significand * (den * 2 ^ x.shift) ≤
    4 * num + (if x.narrowBelow then 1 else 2) * (den * 2 ^ x.shift)
  /-- Not too large. -/
  high : 4 * num ≤ (4 * x.significand + 2) * (den * 2 ^ x.shift)
  /-- Not at an end, if the significand is odd. -/
  odd : x.significand % 2 = 1 →
    4 * x.significand * (den * 2 ^ x.shift) < 4 * num + 2 * (den * 2 ^ x.shift) ∧
      4 * num < (4 * x.significand + 2) * (den * 2 ^ x.shift)

/-- A fraction is rounded in the scale in which it has fifty-three binary digits. -/
theorem nearestBits_eq_of_roundsTo {num den k q : Nat} (hden : 0 < den)
    (hlow : k = 0 ∨ 2 ^ 52 * (den * 2 ^ k) ≤ num) (hhigh : num < 2 ^ 53 * (den * 2 ^ k))
    (hround : RoundsTo num (den * 2 ^ k) q) :
    nearestBits num den = min infinityBits (k * 2 ^ 52 + q) := by
  have hD : 0 < den * 2 ^ k := Nat.mul_pos hden (Nat.two_pow_pos k)
  rw [nearestBits_eq (log2_div_sub hden hlow hhigh), (roundsTo_iff hD).1 hround]

section Catches

variable {x : Magnitude} {num den : Nat}

/-- In the scale of the magnitude, what is in its rounding interval is rounded to its
significand. -/
theorem Magnitude.Catches.roundsTo (h : x.Catches num den) :
    RoundsTo num (den * 2 ^ x.shift) x.significand := by
  have hlow : 4 * x.significand * (den * 2 ^ x.shift) ≤ 4 * num + 2 * (den * 2 ^ x.shift) := by
    refine h.low.trans (Nat.add_le_add_left (Nat.mul_le_mul_right _ ?_) _)
    split <;> omega
  have hhigh := h.high
  have hodd := h.odd
  generalize den * 2 ^ x.shift = D at *
  have e1 : 4 * x.significand * D = 2 * (2 * x.significand * D) := by ring
  have e2 : (4 * x.significand + 2) * D = 2 * ((2 * x.significand + 1) * D) := by ring
  refine ⟨by omega, by omega, fun h1 => ?_⟩
  have := hodd h1
  exact ⟨by omega, by omega⟩

/-- The rounding interval ends before the doubles of the next scale begin. -/
theorem Magnitude.Catches.lt (h : x.Catches num den) (hx : x.Normal) (hden : 0 < den) :
    num < 2 ^ 53 * (den * 2 ^ x.shift) := by
  have hs := hx.lt
  have h1 : (4 * x.significand + 2) * (den * 2 ^ x.shift) < 4 * 2 ^ 53 * (den * 2 ^ x.shift) :=
    Nat.mul_lt_mul_of_pos_right (by omega) (Nat.mul_pos hden (Nat.two_pow_pos _))
  have h2 : 4 * 2 ^ 53 * (den * 2 ^ x.shift) = 4 * (2 ^ 53 * (den * 2 ^ x.shift)) := by ring
  have hhigh := h.high
  omega

/-- Only the rounding interval of a power of two reaches below the scale of its magnitude. -/
theorem Magnitude.Catches.eq_two_pow (h : x.Catches num den) (hx : x.Normal)
    (hshift : x.shift ≠ 0) (hlt : num < 2 ^ 52 * (den * 2 ^ x.shift)) :
    x.significand = 2 ^ 52 := by
  have hle : 2 ^ 52 ≤ x.significand := hx.le.resolve_left hshift
  refine Nat.le_antisymm (h.roundsTo.le_of_lt_half ?_) hle
  have h1 : (2 * 2 ^ 52 + 1) * (den * 2 ^ x.shift) =
    2 * (2 ^ 52 * (den * 2 ^ x.shift)) + den * 2 ^ x.shift := by ring
  omega

/-- Just below a power of two, doubles are twice as dense. -/
theorem nearestBits_of_lt_two_pow {k : Nat} (hden : 0 < den)
    (h : Magnitude.Catches ⟨2 ^ 52, k + 1⟩ num den) (hlt : num < 2 ^ 52 * (den * 2 ^ (k + 1))) :
    nearestBits num den = min infinityBits (k * 2 ^ 52 + 2 ^ 53) := by
  have hdouble : den * 2 ^ (k + 1) = 2 * (den * 2 ^ k) := by ring
  have hlow := h.low
  have hnarrow : Magnitude.narrowBelow ⟨2 ^ 52, k + 1⟩ = true := by
    simp [Magnitude.narrowBelow]
  rw [hnarrow, if_pos rfl] at hlow
  simp only [hdouble] at hlow hlt
  have hround : RoundsTo num (den * 2 ^ k) (2 ^ 53) := by
    generalize den * 2 ^ k = D at *
    exact ⟨by omega, by omega, fun h1 => absurd h1 (by decide)⟩
  exact nearestBits_eq_of_roundsTo hden (.inr (by omega)) (by omega) hround

/-- **What is in the rounding interval of a magnitude is rounded to it.** -/
theorem nearestBits_eq_bits (hx : x.Normal) (hfin : x.bits ≤ infinityBits) (hden : 0 < den)
    (h : x.Catches num den) : nearestBits num den = x.bits := by
  by_cases hin : x.shift = 0 ∨ 2 ^ 52 * (den * 2 ^ x.shift) ≤ num
  · -- the fraction has as many binary digits as the magnitude, so it is rounded in its scale
    rw [nearestBits_eq_of_roundsTo hden hin (h.lt hx hden) h.roundsTo]
    exact Nat.min_eq_right hfin
  · obtain ⟨hshift, hlt⟩ := not_or.1 hin
    rw [Nat.not_le] at hlt
    have hs := h.eq_two_pow hx hshift hlt
    obtain ⟨s, k⟩ := x
    obtain ⟨k, rfl⟩ := Nat.exists_eq_succ_of_ne_zero hshift
    obtain rfl : s = 2 ^ 52 := hs
    have hbits : k * 2 ^ 52 + 2 ^ 53 = Magnitude.bits ⟨2 ^ 52, k + 1⟩ := by
      rw [Magnitude.bits]
      ring
    rw [nearestBits_of_lt_two_pow hden h hlt, hbits]
    exact Nat.min_eq_right hfin

end Catches

/-! ## Overflow -/

/-- The middle between the greatest finite double and the power of two above it, in units. -/
def overflowThreshold : Nat := (2 ^ 54 - 1) * 2 ^ 2044

theorem two_mul_overflowThreshold : 2 * overflowThreshold = (2 ^ 54 - 1) * 2 ^ 2045 := by
  have hpow : (2 : Nat) ^ 2045 = 2 * 2 ^ 2044 := pow_succ' 2 2044
  rw [overflowThreshold, hpow, ← Nat.mul_assoc, ← Nat.mul_assoc, Nat.mul_comm 2]

theorem two_pow_le_overflowThreshold : 2 ^ 2097 ≤ overflowThreshold := by
  have hpow : (2 : Nat) ^ 2097 = 2 ^ 53 * 2 ^ 2044 := pow_add 2 53 2044
  rw [hpow, overflowThreshold]
  exact Nat.mul_le_mul_right _ (by decide)

theorem overflowThreshold_lt_two_pow : overflowThreshold < 2 ^ 2098 := by
  have hpow : (2 : Nat) ^ 2098 = 2 ^ 54 * 2 ^ 2044 := pow_add 2 54 2044
  rw [hpow, overflowThreshold]
  exact Nat.mul_lt_mul_of_pos_right (by decide) (Nat.two_pow_pos _)

/-- In the greatest scale of finite doubles, the threshold is half a unit above the greatest
significand. -/
theorem two_mul_overflowThreshold_mul (den : Nat) :
    2 * (overflowThreshold * den) = (2 * (2 ^ 53 - 1) + 1) * (den * 2 ^ 2045) := by
  have hodd : (2 : Nat) ^ 54 - 1 = 2 * (2 ^ 53 - 1) + 1 := by decide
  rw [← Nat.mul_assoc, two_mul_overflowThreshold, Nat.mul_assoc, Nat.mul_comm den, hodd]

theorem nearestBits_of_le_num {num den : Nat} (hden : 0 < den)
    (h : overflowThreshold * den ≤ num) : nearestBits num den = infinityBits := by
  have hdiv : overflowThreshold ≤ num / den := (Nat.le_div_iff_mul_le hden).2 h
  have hpow : 2 ^ 2097 ≤ num / den := two_pow_le_overflowThreshold.trans hdiv
  have hpos : num / den ≠ 0 := by have := Nat.two_pow_pos 2097; omega
  obtain ⟨k, hk⟩ : ∃ k, Nat.log2 (num / den) - 52 = k := ⟨_, rfl⟩
  have hlog : 2097 ≤ Nat.log2 (num / den) := (Nat.le_log2 hpos).2 hpow
  have hnum : 2 ^ 52 * (den * 2 ^ k) ≤ num := by
    have h1 : 2 ^ Nat.log2 (num / den) * den ≤ num :=
      (Nat.le_div_iff_mul_le hden).1 (Nat.log2_self_le hpos)
    rwa [show Nat.log2 (num / den) = k + 52 by omega, Nat.pow_add,
      show 2 ^ k * 2 ^ 52 * den = 2 ^ 52 * (den * 2 ^ k) by ring] at h1
  have hD : 0 < den * 2 ^ k := Nat.mul_pos hden (Nat.two_pow_pos k)
  have hround := roundsTo_roundHalfEven num hD
  rw [nearestBits_eq hk]
  refine Nat.min_eq_left ?_
  generalize roundHalfEven num (den * 2 ^ k) = q at hround
  rw [infinityBits]
  rcases Nat.eq_or_lt_of_le (show 2045 ≤ k by omega) with rfl | hk'
  · -- the last finite significand is odd, so half a unit above it is rounded up
    have hq : 2 ^ 53 - 1 < q := hround.lt_of_half_le hD (by decide)
      ((two_mul_overflowThreshold_mul den).symm.trans_le (Nat.mul_le_mul_left 2 h))
    omega
  · have hq : 2 ^ 52 ≤ q := hround.le_of_mul_le hD hnum
    have : 2046 * 2 ^ 52 ≤ k * 2 ^ 52 := Nat.mul_le_mul_right _ hk'
    omega

theorem nearestBits_lt_of_num_lt {num den : Nat} (hden : 0 < den)
    (h : num < overflowThreshold * den) : nearestBits num den < infinityBits := by
  obtain ⟨k, hk⟩ : ∃ k, Nat.log2 (num / den) - 52 = k := ⟨_, rfl⟩
  have hdiv : num / den < 2 ^ 2098 :=
    ((Nat.div_lt_iff_lt_mul hden).2 h).trans overflowThreshold_lt_two_pow
  have hlog : Nat.log2 (num / den) < 2098 := by
    by_cases h0 : num / den = 0
    · rw [h0]; decide
    · exact (Nat.log2_lt h0).2 hdiv
  have hnum : num < 2 ^ 53 * (den * 2 ^ k) := by
    have h1 : num / den < 2 ^ (k + 53) :=
      lt_of_lt_of_le (Nat.lt_log2_self (n := num / den))
        (Nat.pow_le_pow_right (by decide) (by omega))
    rw [Nat.div_lt_iff_lt_mul hden] at h1
    rwa [Nat.pow_add, show 2 ^ k * 2 ^ 53 * den = 2 ^ 53 * (den * 2 ^ k) by ring] at h1
  have hD : 0 < den * 2 ^ k := Nat.mul_pos hden (Nat.two_pow_pos k)
  have hround := roundsTo_roundHalfEven num hD
  rw [nearestBits_eq hk]
  refine lt_of_le_of_lt (Nat.min_le_right _ _) ?_
  generalize roundHalfEven num (den * 2 ^ k) = q at hround
  rw [infinityBits]
  rcases Nat.eq_or_lt_of_le (show k ≤ 2045 by omega) with rfl | hk'
  · have hq : q ≤ 2 ^ 53 - 1 := hround.le_of_lt_half
      ((Nat.mul_lt_mul_of_pos_left h (by decide)).trans_eq (two_mul_overflowThreshold_mul den))
    omega
  · have hq : q ≤ 2 ^ 53 := by
      refine hround.le_of_lt_half ?_
      have h1 : (2 * 2 ^ 53 + 1) * (den * 2 ^ k) =
        2 * (2 ^ 53 * (den * 2 ^ k)) + den * 2 ^ k := by ring
      omega
    have : k * 2 ^ 52 ≤ 2044 * 2 ^ 52 := Nat.mul_le_mul_right _ (by omega)
    omega

/-- **A fraction is rounded to a finite double exactly if it is below the threshold.** -/
theorem nearestBits_lt_iff {num den : Nat} (hden : 0 < den) :
    nearestBits num den < infinityBits ↔ num < overflowThreshold * den := by
  refine ⟨fun h => ?_, nearestBits_lt_of_num_lt hden⟩
  by_contra hge
  rw [nearestBits_of_le_num hden (Nat.le_of_not_lt hge)] at h
  exact lt_irrefl _ h

end Binary
end EquationFigure
