import EquationFigure.Proofs.Decimal.NumberText
import EquationFigure.Proofs.Json.Tokens

/-!
# What the numbers of a text denote

A number of a text denotes the double nearest to it, however it is written: as a whole number, with
a point, with an exponent of either sign, with zeros at either end.  The reader tells whole numbers
from others and does not work out great exponents; neither makes a difference.

* `Number.Denotes` — the double that a number denotes, in terms of rounding intervals.
* `Number.ExponentFits` — the exponent is not beyond those that are read;
  `Number.Denotes.exponentFits` says that only numbers of thousands of millions of digits are
  excluded by that.
* `scientificBits_eq` — numbers whose exponents are not worked out are rounded as all others.
* `scanNumber_of_denotes` — a number is read, and what is read is the double denoted.
-/

set_option autoImplicit false

namespace EquationFigure

open Binary

/-! ## Exponents that are not worked out -/

namespace Binary

theorem lt_ten_pow_length_toDigits (n : Nat) : n < 10 ^ (Nat.toDigits 10 n).length := by
  have hdigits : ∀ c ∈ Nat.toDigits 10 n, c.isDigit = true := fun c hc =>
    Nat.isDigit_of_mem_toDigits (by decide) (by decide) hc
  have h := Numeral.ofDigitChars_lt hdigits
  rwa [Nat.ofDigitChars_toDigits (by decide) (by decide)] at h

theorem ten_pow_le_of_length_toDigits {n k : Nat} (hn : 0 < n)
    (hk : k < (Nat.toDigits 10 n).length) : 10 ^ k ≤ n := by
  cases k with
  | zero => exact hn
  | succ k =>
    by_contra hlt
    have := Nat.toDigits_length 10 n (k + 1) (Nat.succ_pos k) (Nat.lt_of_not_le hlt)
    omega

theorem unitsPerOne_eq : unitsPerOne = 2 ^ 1074 := Nat.pow_eq

theorem two_pow_le_ten_pow {k e : Nat} (h : e ≤ 3 * k) : 2 ^ e ≤ 10 ^ k :=
  calc 2 ^ e ≤ 2 ^ (3 * k) := Nat.pow_le_pow_right (by decide) h
    _ = 8 ^ k := pow_mul 2 3 k
    _ ≤ 10 ^ k := Nat.pow_le_pow_left (by decide) k

/-- What is less than half a unit is rounded to zero. -/
theorem nearestBits_of_lt_half {num den : Nat} (h : 2 * num < den) : nearestBits num den = 0 := by
  have hdiv : num / den = 0 := Nat.div_eq_of_lt (by omega)
  have hmod : num % den = num := Nat.mod_eq_of_lt (by omega)
  have hround : roundHalfEven num (den * 2 ^ 0) = 0 := by
    rw [pow_zero, Nat.mul_one, roundHalfEven, hdiv, hmod, if_pos (.inl h)]
  have hshift : Nat.log2 (num / den) - 52 = 0 := by
    rw [hdiv]
    rfl
  rw [nearestBits_eq hshift, hround]
  rfl

/-- With so small an exponent, a number is below every double but zero. -/
theorem two_mul_lt_of_lt_reach {mantissa : Nat} {exponent : Int}
    (h : (Nat.toDigits 10 mantissa).length + exponent < -scientificReach) :
    2 * (mantissa * 10 ^ exponent.toNat * unitsPerOne) < 10 ^ (-exponent).toNat := by
  have hdouble : (2 : Nat) ^ 1075 = 2 * 2 ^ 1074 := pow_succ' 2 1074
  rw [scientificReach] at h
  rw [show exponent.toNat = 0 by omega, pow_zero, Nat.mul_one, unitsPerOne_eq]
  calc 2 * (mantissa * 2 ^ 1074) = mantissa * 2 ^ 1075 := by
        rw [hdouble, Nat.mul_left_comm]
    _ < 10 ^ (Nat.toDigits 10 mantissa).length * 2 ^ 1075 :=
      Nat.mul_lt_mul_of_pos_right (lt_ten_pow_length_toDigits mantissa) (Nat.two_pow_pos _)
    _ ≤ 10 ^ (Nat.toDigits 10 mantissa).length * 10 ^ 400 :=
      Nat.mul_le_mul_left _ (two_pow_le_ten_pow (by decide))
    _ = 10 ^ ((Nat.toDigits 10 mantissa).length + 400) := (pow_add _ _ _).symm
    _ ≤ 10 ^ (-exponent).toNat := Nat.pow_le_pow_right (by decide) (by omega)

/-- With so great an exponent, a number is beyond every double. -/
theorem overflowThreshold_le_of_reach_lt {mantissa : Nat} {exponent : Int} (hpos : 0 < mantissa)
    (h : (Nat.toDigits 10 mantissa).length + exponent > scientificReach) :
    overflowThreshold * 10 ^ (-exponent).toNat ≤
      mantissa * 10 ^ exponent.toNat * unitsPerOne := by
  rw [scientificReach] at h
  have hdigits : 10 ^ ((Nat.toDigits 10 mantissa).length - 1) ≤ mantissa :=
    ten_pow_le_of_length_toDigits hpos (by
      have := Nat.length_toDigits_pos (b := 10) (n := mantissa)
      omega)
  rw [unitsPerOne_eq]
  calc overflowThreshold * 10 ^ (-exponent).toNat
      ≤ 2 ^ 2098 * 10 ^ (-exponent).toNat :=
        Nat.mul_le_mul_right _ overflowThreshold_lt_two_pow.le
    _ = 2 ^ 1024 * 10 ^ (-exponent).toNat * 2 ^ 1074 := by ring
    _ ≤ 10 ^ 400 * 10 ^ (-exponent).toNat * 2 ^ 1074 :=
      Nat.mul_le_mul_right _ (Nat.mul_le_mul_right _ (two_pow_le_ten_pow (by decide)))
    _ = 10 ^ (400 + (-exponent).toNat) * 2 ^ 1074 := by rw [pow_add]
    _ ≤ 10 ^ ((Nat.toDigits 10 mantissa).length - 1 + exponent.toNat) * 2 ^ 1074 :=
      Nat.mul_le_mul_right _ (Nat.pow_le_pow_right (by decide) (by omega))
    _ = 10 ^ ((Nat.toDigits 10 mantissa).length - 1) * 10 ^ exponent.toNat * 2 ^ 1074 := by
      rw [pow_add]
    _ ≤ mantissa * 10 ^ exponent.toNat * 2 ^ 1074 :=
      Nat.mul_le_mul_right _ (Nat.mul_le_mul_right _ hdigits)

/-- **A number with an exponent is rounded**, also where the exponent is not worked out. -/
theorem scientificBits_eq (mantissa : Nat) (exponent : Int) :
    scientificBits mantissa exponent =
      nearestBits (mantissa * 10 ^ exponent.toNat * unitsPerOne) (10 ^ (-exponent).toNat) := by
  have hden : 0 < 10 ^ (-exponent).toNat := Nat.pow_pos (by decide)
  rw [scientificBits]
  split
  · rename_i hzero
    rw [hzero, Nat.zero_mul, Nat.zero_mul, nearestBits_of_lt_half hden]
  · rename_i hne
    dsimp only
    split
    · exact (nearestBits_of_lt_half (two_mul_lt_of_lt_reach ‹_›)).symm
    · split
      · have hle := overflowThreshold_le_of_reach_lt (Nat.pos_of_ne_zero hne) ‹_›
        exact (nearestBits_of_le_num hden hle).symm
      · rfl

end Binary

namespace Json

/-! ## What a number denotes -/

namespace Number

/-- The digits without the point. -/
def mantissa (n : Number) : Nat := Nat.ofDigitChars 10 (n.whole ++ n.fraction) 0

/-- The power of ten that the digits without the point are multiplied by. -/
def scale (n : Number) : Int := (n.exponent?.map Exponent.value).getD 0 - n.fraction.length

/-- The number denotes the double: it has the same sign, and without its sign it is in the rounding
interval of the double.  A number beyond the middle between the greatest double and the power of two
above it denotes none. -/
structure Denotes (n : Number) (x : Float) : Prop where
  /-- The double is a number. -/
  isFinite : x.isFinite = true
  /-- The signs are the same, also those of zeros. -/
  sign : signBit x = n.negative
  /-- The double is the nearest one, and the one with an even significand of two. -/
  nearest : (magnitude x).Catches (n.mantissa * 10 ^ n.scale.toNat * unitsPerOne)
    (10 ^ (-n.scale).toNat)

/-- The exponent is not beyond the greatest that is read, unless it makes the number small or the
number is zero anyway. -/
def ExponentFits (n : Number) : Prop :=
  ∀ e, n.exponent? = some e → e.negative = false → (∃ c ∈ n.whole ++ n.fraction, c ≠ '0') →
    Nat.ofDigitChars 10 e.digits 0 ≤ exponentLimit

end Number

section Denotes

variable {n : Number} {x : Float} {t rest : Text}

theorem Number.Denotes.nearestBits_eq (h : n.Denotes x) :
    nearestBits (n.mantissa * 10 ^ n.scale.toNat * unitsPerOne) (10 ^ (-n.scale).toNat) =
      magnitudeBits x := by
  have hfin := (isFinite_iff x).1 h.isFinite
  rw [← Magnitude.bits_ofBits (magnitudeBits x)]
  refine nearestBits_eq_bits (Magnitude.normal_ofBits _) ?_ (Nat.pow_pos (by decide)) h.nearest
  rw [Magnitude.bits_ofBits]
  exact hfin.le

/-- The double of the sign and the rounded number is the one denoted. -/
theorem Number.Denotes.eq (h : n.Denotes x) :
    ofMagnitudeBits n.negative
      (nearestBits (n.mantissa * 10 ^ n.scale.toNat * unitsPerOne) (10 ^ (-n.scale).toNat)) =
      x := by
  rw [h.nearestBits_eq, ← h.sign, ofMagnitudeBits_self ((isFinite_iff x).1 h.isFinite).le]

/-- A value that is read is the double. -/
inductive IsDouble (x : Float) : Value → Prop
  | integer {k : Int} : floatOfInt k = x → IsDouble x (.integer k)
  | float : IsDouble x (.float x)

/-- A whole number is the double nearest to it, whether it fits a machine word or not. -/
theorem isDouble_ofWhole (negative : Bool) (m : Nat) :
    IsDouble (ofMagnitudeBits negative (nearestBits (m * unitsPerOne) 1))
      (Value.ofWhole negative m) := by
  rw [Value.ofWhole]
  cases negative with
  | true =>
    rw [if_pos rfl]
    split
    · rename_i hm
      refine .integer ?_
      rw [floatOfInt, decide_eq_true (by omega), Int.natAbs_neg, Int.natAbs_natCast]
    · exact .float
  | false =>
    have hfloat : floatOfInt m = ofMagnitudeBits false (nearestBits (m * unitsPerOne) 1) := by
      rw [floatOfInt, decide_eq_false (by omega), Int.natAbs_natCast]
    rw [if_neg (by decide)]
    split
    · exact .integer hfloat
    · rw [hfloat]
      exact .float

/-- **What a number is read as is the double that it denotes.** -/
theorem Number.Denotes.isDouble (h : n.Denotes x) : IsDouble x n.value := by
  have heq := h.eq
  obtain ⟨negative, whole, fraction, exponent?⟩ := n
  rw [Number.mantissa, Number.scale] at heq
  dsimp only at heq
  rw [Number.value]
  split
  · rename_i hfraction hexponent
    dsimp only at hfraction hexponent
    subst hfraction hexponent
    rw [List.append_nil, Option.map_none, Option.getD_none, List.length_nil] at heq
    rw [← heq]
    have hscale : (0 : Int) - (0 : Nat) = 0 := rfl
    rw [hscale, Int.toNat_zero, pow_zero, Nat.mul_one]
    exact isDouble_ofWhole negative _
  · rw [scientificBits_eq, heq]
    exact .float

theorem ofDigitChars_pos (ht : AreDigits t) (h : ∃ c ∈ t, c ≠ '0') :
    0 < Nat.ofDigitChars 10 t 0 := by
  induction t with
  | nil =>
    obtain ⟨c, hc, -⟩ := h
    cases hc
  | cons d t ih =>
    obtain ⟨hd, ht⟩ := List.forall_mem_cons.1 ht
    rw [Nat.ofDigitChars_cons, Nat.ofDigitChars_eq_ofDigitChars_zero, Nat.mul_zero, Nat.zero_add]
    by_cases hzero : d = '0'
    · obtain ⟨c, hc, hne⟩ := h
      rcases List.mem_cons.1 hc with rfl | hc
      · exact absurd hzero hne
      · exact Nat.add_pos_right _ (ih ht ⟨c, hc, hne⟩)
    · have hpos : 0 < d.toNat - '0'.toNat := by
        have hne : d.toNat ≠ '0'.toNat := fun heq => hzero (Char.toNat_inj.1 heq)
        simp [Char.isDigit, UInt32.le_iff_toNat_le] at hd
        change 0 < d.toNat - 48
        change d.toNat ≠ 48 at hne
        omega
      exact Nat.add_pos_left (Nat.mul_pos (Nat.pow_pos (by decide)) hpos) _

/-- **Only numbers of thousands of millions of digits may have an exponent that is not read.**  A
greater exponent takes other numbers beyond every double. -/
theorem Number.Denotes.exponentFits (hspells : n.Spells t) (h : n.Denotes x)
    (hlength : n.fraction.length ≤ 2000000000) : n.ExponentFits := by
  intro e he hneg hdigit
  by_contra hgreat
  rw [Number.exponentLimit] at hgreat
  have hdigits : AreDigits (n.whole ++ n.fraction) := by
    cases hspells with
    | mk hwhole hfraction => exact List.forall_mem_append.2 ⟨hwhole.areDigits, hfraction⟩
  have hmantissa : 1 ≤ n.mantissa := ofDigitChars_pos hdigits hdigit
  have hscale : 1000 ≤ n.scale := by
    have hvalue : e.value = Nat.ofDigitChars 10 e.digits 0 := by
      rw [Exponent.value, hneg]
      rfl
    rw [Number.scale, he, Option.map_some, Option.getD_some, hvalue]
    simp only [Nat.pow_eq] at hgreat
    omega
  have hdenominator : (-n.scale).toNat = 0 := by omega
  have hexponent : 1024 ≤ 3 * n.scale.toNat := by omega
  have hfin := (isFinite_iff x).1 h.isFinite
  have hthreshold := overflowThreshold_lt_two_pow
  rw [← h.nearestBits_eq, nearestBits_lt_iff (Nat.pow_pos (by decide))] at hfin
  generalize overflowThreshold = threshold at hfin hthreshold
  rw [hdenominator, pow_zero, Nat.mul_one] at hfin
  refine absurd hfin (Nat.not_lt.2 ?_)
  calc threshold ≤ 2 ^ 2098 := hthreshold.le
    _ = 1 * 2 ^ 1024 * 2 ^ 1074 := by rw [Nat.one_mul, ← pow_add]
    _ ≤ n.mantissa * 10 ^ n.scale.toNat * 2 ^ 1074 :=
      Nat.mul_le_mul_right _ (Nat.mul_le_mul hmantissa (two_pow_le_ten_pow hexponent))
    _ = n.mantissa * 10 ^ n.scale.toNat * unitsPerOne := by rw [unitsPerOne_eq]

/-! ## A number for every double -/

theorem isWhole_toDigits (m : Nat) : IsWhole (Nat.toDigits 10 m) := by
  induction m using Nat.strongRecOn with
  | ind m ih =>
    by_cases hm : m < 10
    · rw [Nat.toDigits_of_lt_base hm]
      by_cases hzero : m = 0
      · subst hzero
        exact .zero
      · have hdigit : ∀ k < 10, k ≠ 0 → k.digitChar ≠ '0' ∧ k.digitChar.isDigit = true := by decide
        obtain ⟨hne, hd⟩ := hdigit m hm hzero
        exact .positive hne (List.forall_mem_singleton.2 hd)
    · have hlast : (m % 10).digitChar.isDigit = true :=
        (by decide : ∀ k < 10, k.digitChar.isDigit = true) _ (Nat.mod_lt _ (by decide))
      have hvalue : Nat.ofDigitChars 10 (Nat.toDigits 10 (m / 10)) 0 = m / 10 :=
        Nat.ofDigitChars_toDigits (by decide) (by decide)
      have hfirst := ih (m / 10) (Nat.div_lt_self (by omega) (by decide))
      rw [Nat.toDigits_of_base_le (by decide) (Nat.le_of_not_lt hm)]
      revert hvalue hfirst
      generalize Nat.toDigits 10 (m / 10) = t
      rintro hvalue (_ | ⟨hne, hdigits⟩)
      · rw [show Nat.ofDigitChars 10 ['0'] 0 = 0 from rfl] at hvalue
        omega
      · exact .positive hne (List.forall_mem_append.2
          ⟨hdigits, List.forall_mem_singleton.2 hlast⟩)

/-- A magnitude is in its own rounding interval. -/
theorem catches_self (y : Magnitude) {den : Nat} (hden : 0 < den) :
    y.Catches (y.units * den) den := by
  have hpos : 0 < den * 2 ^ y.shift := Nat.mul_pos hden (Nat.two_pow_pos _)
  have hunits : y.units * den = y.significand * (den * 2 ^ y.shift) := by
    rw [Magnitude.units, Nat.pow_eq, Nat.mul_assoc, Nat.mul_comm (2 ^ y.shift)]
  obtain ⟨s, k⟩ := y
  dsimp only at hpos hunits
  rw [hunits]
  constructor <;> dsimp only <;> generalize den * 2 ^ k = d at hpos
  · rw [Nat.mul_assoc]
    exact Nat.le_add_right _ _
  · rw [Nat.add_mul, Nat.mul_assoc]
    exact Nat.le_add_right _ _
  · intro _
    rw [Nat.add_mul, Nat.mul_assoc]
    omega

/-- The exact number of a finite double: its units are multiples of a power of one tenth. -/
def exactNumber (x : Float) : Number where
  negative := signBit x
  whole := Nat.toDigits 10 ((magnitude x).units * 5 ^ 1074)
  fraction := []
  exponent? := some ⟨true, ['1', '0', '7', '4']⟩

theorem denotes_exactNumber (hx : x.isFinite = true) : (exactNumber x).Denotes x where
  isFinite := hx
  sign := rfl
  nearest := by
    have hmantissa : (exactNumber x).mantissa = (magnitude x).units * 5 ^ 1074 := by
      rw [Number.mantissa, exactNumber, List.append_nil]
      exact Nat.ofDigitChars_toDigits (by decide) (by decide)
    have hscale : (exactNumber x).scale = -1074 := rfl
    have hten : (10 : Nat) ^ 1074 = 5 ^ 1074 * 2 ^ 1074 := by
      rw [← Nat.mul_pow]
    rw [hmantissa, hscale]
    change (magnitude x).Catches ((magnitude x).units * 5 ^ 1074 * 10 ^ 0 * unitsPerOne) (10 ^ 1074)
    rw [pow_zero, Nat.mul_one, unitsPerOne_eq, Nat.mul_assoc, ← hten]
    exact catches_self _ (Nat.pow_pos (by decide))

/-- **Every finite double has a number** that denotes it and can be read. -/
theorem exists_denotes (hx : x.isFinite = true) :
    ∃ n t, Number.Denotes n x ∧ n.ExponentFits ∧ n.Spells t := by
  refine ⟨exactNumber x, _, denotes_exactNumber hx, ?_,
    .mk (isWhole_toDigits _) (List.forall_mem_nil _)
      (.some (.inl rfl) .minus (List.cons_ne_nil _ _) (by simp [AreDigits]))⟩
  rintro e he hneg
  cases he
  cases hneg

/-! ## Reading numbers -/

theorem beyondLimit?_eq_none {digits : Text} (k : Nat)
    (h : Nat.ofDigitChars 10 digits k ≤ Number.exponentLimit) :
    Number.beyondLimit? k digits = none := by
  induction digits generalizing k with
  | nil => rfl
  | cons c digits ih =>
    rw [Nat.ofDigitChars_cons] at h
    have hle : 10 * k + (c.toNat - '0'.toNat) ≤ Number.exponentLimit := by
      refine le_trans ?_ h
      rw [Nat.ofDigitChars_eq_ofDigitChars_zero]
      exact (Nat.le_mul_of_pos_left _ (Nat.pow_pos (by decide))).trans (Nat.le_add_right _ _)
    rw [Number.beyondLimit?, if_neg (Nat.not_lt.2 hle)]
    exact ih _ h

theorem Number.ExponentFits.excess?_eq_none (h : n.ExponentFits) : n.excess? = none := by
  rw [Number.excess?]
  cases he : n.exponent? with
  | none => rfl
  | some e =>
    change (if e.negative ∨ (n.whole ++ n.fraction).all (· == '0') then none
      else Number.beyondLimit? 0 e.digits) = none
    split
    · rfl
    · rename_i hneither
      rw [not_or, Bool.not_eq_true, List.all_eq_true] at hneither
      refine beyondLimit?_eq_none 0 (h e he hneither.1 ?_)
      have hdigit := hneither.2
      push Not at hdigit
      simpa using hdigit

/-- **A number is read as the double that it denotes**, where it is written. -/
theorem scanNumber_of_denotes (hspells : n.Spells t) (h : n.Denotes x) (hfits : n.ExponentFits)
    (hrest : Stops rest) : scanNumber (t ++ rest) = .ok (n.value, rest) := by
  rw [scanNumber, scan_of_spells hspells hrest]
  dsimp only [bind, Except.bind]
  rw [hfits.excess?_eq_none]
  have hdouble := h.isDouble
  revert hdouble
  generalize n.value = v
  intro hdouble
  cases hdouble with
  | integer => rfl
  | float =>
    have hinf : x.isInf = false := by
      have hfin := (isFinite_iff x).1 h.isFinite
      rw [← Bool.not_eq_true, isInf_iff]
      omega
    dsimp only
    rw [hinf]
    rfl

end Denotes

end Json
end EquationFigure
