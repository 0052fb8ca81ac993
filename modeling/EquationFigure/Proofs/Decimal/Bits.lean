import EquationFigure.Decimal.Binary
import Mathlib

/-!
# The bits of a double

`Float` comes with a model in the logic, which unpacks the sixty-four bits of a double into sign,
mantissa and exponent and packs them again.  Everything in this library works on the bits as one
number instead (`Binary.magnitudeBits`), so this file ties the two views together.

* `pack_unpack_of_le` — packing undoes unpacking, except on the words that are not a number.
* `isFinite_iff`, `isInf_iff`, `isNaN_iff`, `beq_zero_iff` — the bits below the sign are in the
  order of the doubles: zero first, then the finite ones, infinity, and what is not a number.
* `magnitudeBits_ofMagnitudeBits`, `ofMagnitudeBits_self` — a double is its sign and its bits below.
-/

set_option autoImplicit false

namespace EquationFigure
namespace Binary

open Float.Model Float.Model.UnpackedFloat

/-- The bits of a double. -/
abbrev Word := BitVec Format.binary64.numBits

/-! ## The parts of a word -/

theorem toNat_unpackExponent (b : Word) : (unpackExponent b).toNat = b.toNat / 2 ^ 52 % 2 ^ 11 := by
  simp [unpackExponent, Nat.shiftRight_eq_div_pow]

theorem toNat_unpackMantissa (b : Word) : (unpackMantissa b).toNat = b.toNat % 2 ^ 52 := by
  simp [unpackMantissa]

/-! ## What kind of number it is -/

/-- How the bits of a double tell what kind of number it is. -/
theorem kind_of_bits (b : Word) :
    (b.toNat % 2 ^ 63 = 0 ∧ ∃ s, UnpackedFloat.unpack _ b = .zero s) ∨
    (0 < b.toNat % 2 ^ 63 ∧ b.toNat % 2 ^ 63 < infinityBits ∧
      ∃ s m e h, UnpackedFloat.unpack _ b = .finite s m e h) ∨
    (b.toNat % 2 ^ 63 = infinityBits ∧ ∃ s, UnpackedFloat.unpack _ b = .infinity s) ∨
    (infinityBits < b.toNat % 2 ^ 63 ∧ UnpackedFloat.unpack _ b = .notANumber) := by
  have he := toNat_unpackExponent b
  have hm := toNat_unpackMantissa b
  have hm0 : (unpackMantissa b).toNat = 0 ↔ unpackMantissa b = 0#_ := BitVec.toNat_inj (y := 0#52)
  have he0 : (unpackExponent b).toNat = 0 ↔ unpackExponent b = 0#_ := BitVec.toNat_inj (y := 0#11)
  have he1 : (unpackExponent b).toNat = 2047 ↔ unpackExponent b = -1#_ :=
    BitVec.toNat_inj (y := -1#11)
  rw [infinityBits, UnpackedFloat.unpack]
  by_cases hmax : unpackExponent b = -1#_
  · have := he1.2 hmax
    by_cases hzero : unpackMantissa b = 0#_
    · have := hm0.2 hzero
      exact .inr (.inr (.inl ⟨by omega, _, by rw [if_pos hmax, if_pos hzero]⟩))
    · have := mt hm0.1 hzero
      exact .inr (.inr (.inr ⟨by omega, by rw [if_pos hmax, if_neg hzero]⟩))
  · have := mt he1.1 hmax
    by_cases hmin : unpackExponent b = 0#_
    · have := he0.2 hmin
      by_cases hzero : unpackMantissa b = 0#_
      · have := hm0.2 hzero
        exact .inl ⟨by omega, _, by
          rw [if_neg hmax, if_pos hmin, dif_pos hzero]⟩
      · have := mt hm0.1 hzero
        exact .inr (.inl ⟨by omega, by omega, _, _, _, _, by
          rw [if_neg hmax, if_pos hmin, dif_neg hzero]⟩)
    · have := mt he0.1 hmin
      exact .inr (.inl ⟨by omega, by omega, _, _, _, _, by
        rw [if_neg hmax, if_neg hmin]⟩)

theorem kind_of_magnitudeBits (x : Float) :
    (magnitudeBits x = 0 ∧ ∃ s, x.toModel.unpack = .zero s) ∨
    (0 < magnitudeBits x ∧ magnitudeBits x < infinityBits ∧
      ∃ s m e h, x.toModel.unpack = .finite s m e h) ∨
    (magnitudeBits x = infinityBits ∧ ∃ s, x.toModel.unpack = .infinity s) ∨
    (infinityBits < magnitudeBits x ∧ x.toModel.unpack = .notANumber) :=
  kind_of_bits x.toBits.toBitVec

theorem isFinite_iff (x : Float) : x.isFinite = true ↔ magnitudeBits x < infinityBits := by
  change x.toModel.unpack.isFinite = true ↔ _
  rcases kind_of_magnitudeBits x with
    ⟨h, s, hx⟩ | ⟨-, h, s, m, e, hm, hx⟩ | ⟨h, s, hx⟩ | ⟨h, hx⟩ <;>
    rw [hx, UnpackedFloat.isFinite]
  · simp [h, infinityBits]
  · simpa using h
  · simp [h]
  · simpa using h.le

theorem isInf_iff (x : Float) : x.isInf = true ↔ magnitudeBits x = infinityBits := by
  change x.toModel.unpack.isInf = true ↔ _
  rcases kind_of_magnitudeBits x with
    ⟨h, s, hx⟩ | ⟨-, h, s, m, e, hm, hx⟩ | ⟨h, s, hx⟩ | ⟨h, hx⟩ <;>
    rw [hx]
  · simp [UnpackedFloat.isInf, h, infinityBits]
  · simpa [UnpackedFloat.isInf] using h.ne
  · simpa [UnpackedFloat.isInf] using h
  · simpa [UnpackedFloat.isInf] using h.ne'

theorem isNaN_iff (x : Float) : x.isNaN = true ↔ infinityBits < magnitudeBits x := by
  change x.toModel.unpack.isNaN = true ↔ _
  rcases kind_of_magnitudeBits x with
    ⟨h, s, hx⟩ | ⟨-, h, s, m, e, hm, hx⟩ | ⟨h, s, hx⟩ | ⟨h, hx⟩ <;>
    rw [hx]
  · simp [UnpackedFloat.isNaN, h]
  · simpa [UnpackedFloat.isNaN] using h.le
  · simp [UnpackedFloat.isNaN, h]
  · simpa [UnpackedFloat.isNaN] using h

theorem beq_zero_iff (x : Float) : (x == 0) = true ↔ magnitudeBits x = 0 := by
  have hz : (0 : Float).toModel.unpack = .zero .positive := by rfl
  change (x.toModel.unpack.compare (0 : Float).toModel.unpack == some .eq) = true ↔ _
  rw [hz]
  rcases kind_of_magnitudeBits x with
    ⟨h, s, hx⟩ | ⟨h, -, s, m, e, hm, hx⟩ | ⟨h, s, hx⟩ | ⟨h, hx⟩ <;>
    rw [hx]
  · simpa [UnpackedFloat.compare] using h
  · cases s <;> simpa [UnpackedFloat.compare] using h.ne'
  · cases s <;> simp [UnpackedFloat.compare, h, infinityBits]
  · exact iff_of_false (by simp [UnpackedFloat.compare]) (by omega)

/-! ## Doubles and their bits -/

/-- **Packing undoes unpacking** on the words that stand for a number or an infinity. -/
theorem pack_unpack_of_le {b : Word} (h : b.toNat % 2 ^ 63 ≤ infinityBits) :
    (UnpackedFloat.unpack Format.binary64 b).pack Format.binary64 = b := by
  refine (pack_unpack b).trans (if_neg ?_)
  rw [isNaNBits, decide_eq_true_iff]
  rintro ⟨he, hm⟩
  refine hm (BitVec.eq_of_toNat_eq ?_)
  have he := congrArg BitVec.toNat he
  rw [toNat_unpackExponent] at he
  rw [toNat_unpackMantissa]
  change b.toNat / 2 ^ 52 % 2 ^ 11 = 2047 at he
  change b.toNat % 2 ^ 52 = 0
  rw [infinityBits] at h
  omega

theorem toBits_ofBits {u : UInt64} (h : u.toNat % 2 ^ 63 ≤ infinityBits) :
    (Float.ofBits u).toBits = u :=
  congrArg UInt64.ofBitVec (pack_unpack_of_le h)

/-- Bits can be compared by evaluation. -/
theorem eq_ok_of_toBits {ε : Type} {r : Except ε Float} {x : Float}
    (h : r.toOption.map Float.toBits = some x.toBits) : r = .ok x := by
  cases r with
  | error e => cases h
  | ok y => exact congrArg Except.ok (Float.toBits_inj.1 (Option.some.inj h))

theorem toBits_ofMagnitudeBits {b : Nat} (h : b ≤ infinityBits) (negative : Bool) :
    (ofMagnitudeBits negative b).toBits.toNat = if negative then 2 ^ 63 + b else b := by
  rw [infinityBits] at h
  rw [ofMagnitudeBits, toBits_ofBits]
  · cases negative <;> simp [UInt64.toNat_ofNat] <;> omega
  · rw [infinityBits]
    cases negative <;> simp [UInt64.toNat_ofNat] <;> omega

theorem magnitudeBits_ofMagnitudeBits {b : Nat} (h : b ≤ infinityBits) (negative : Bool) :
    magnitudeBits (ofMagnitudeBits negative b) = b := by
  rw [magnitudeBits, toBits_ofMagnitudeBits h]
  rw [infinityBits] at h
  cases negative <;> simp <;> omega

theorem ofMagnitudeBits_self {x : Float} (h : magnitudeBits x ≤ infinityBits) :
    ofMagnitudeBits (signBit x) (magnitudeBits x) = x := by
  refine Float.toBits_inj.1 (UInt64.toNat_inj.1 ?_)
  rw [toBits_ofMagnitudeBits h]
  rw [signBit, magnitudeBits]
  have := x.toBits.toNat_lt
  simp only [decide_eq_true_eq, Nat.pow_eq]
  split <;> omega

end Binary
end EquationFigure
