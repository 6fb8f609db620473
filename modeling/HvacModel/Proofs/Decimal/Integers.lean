import HvacModel.Proofs.Decimal.Nearest
import HvacModel.Proofs.Decimal.Written

/-! # The doubles of integers

A double has 53 binary digits, so an integer is a double exactly when it has no more of them before
its trailing zeros (`FitsSignificand`).  `ofInt` gives the nearest double, and the integer itself
where that is a double (`nearestTo_ofInt`): from `2 ^ 53` on an integer may change its value when it
is made a double. -/

namespace HvacModel.Decimal

/-! ### The number of a double -/

/-- The rational number of a finite double. -/
def toRat (x : Float) : ℚ :=
  if negative x then -(Binary.ofMagnitude (magnitude x)).toRat
  else (Binary.ofMagnitude (magnitude x)).toRat

theorem abs_toRat (x : Float) : |toRat x| = (Binary.ofMagnitude (magnitude x)).toRat := by
  have h0 : 0 ≤ (Binary.ofMagnitude (magnitude x)).toRat :=
    mul_nonneg (Nat.cast_nonneg _) (zpow_nonneg (by norm_num) _)
  rw [toRat]
  split
  · rw [abs_neg, abs_of_nonneg h0]
  · rw [abs_of_nonneg h0]

open Float.Model in
/-- The bit pattern of a number is kept. -/
theorem toBits_ofBits {bits : UInt64} (h : bits.toNat % signBit < infinityBits) :
    (Float.ofBits bits).toBits = bits := by
  have hnan : ¬@UnpackedFloat.isNaNBits .binary64 bits.toBitVec = true := by
    rw [UnpackedFloat.isNaNBits, decide_eq_true_eq, unpackExponent_eq_iff]
    exact fun hfull => Nat.not_le.mpr h hfull.1
  have hpack := @UnpackedFloat.pack_unpack .binary64 bits.toBitVec (by decide)
  rw [if_neg hnan] at hpack
  exact congrArg UInt64.ofBitVec hpack

section Signed

variable {bits : ℕ} (h : bits < infinityBits) (sign : Bool)
include h

theorem toNat_toBits_signed :
    (signed sign bits).toBits.toNat = if sign then signBit + bits else bits := by
  have hfits : (UInt64.ofNat (if sign then signBit + bits else bits)).toNat =
      if sign then signBit + bits else bits := by
    apply Nat.mod_eq_of_lt
    rw [infinityBits_eq] at h
    rw [signBit_eq]
    split <;> omega
  rw [signed, toBits_ofBits, hfits]
  rw [hfits]
  rw [infinityBits_eq] at h ⊢
  rw [signBit_eq]
  split <;> omega

theorem magnitude_signed : magnitude (signed sign bits) = bits := by
  rw [magnitude, toNat_toBits_signed h, signBit_eq]
  rw [infinityBits_eq] at h
  split <;> omega

theorem negative_signed : negative (signed sign bits) = sign := by
  rw [negative, toNat_toBits_signed h, signBit_eq]
  rw [infinityBits_eq] at h
  cases sign
  · simp
    omega
  · simp

theorem isFinite_signed : (signed sign bits).isFinite = true := by
  rw [isFinite_iff, magnitude_signed h]
  exact h

end Signed

/-! ### Integers among the doubles -/

/-- A natural number of at most 53 binary digits before its trailing zeros. -/
def FitsSignificand (n : ℕ) : Prop := ∃ m e : ℕ, m < 2 ^ 53 ∧ n = m * 2 ^ e

theorem exists_ofMagnitude {n : ℕ} (h : FitsSignificand n) :
    ∃ k, (Binary.ofMagnitude k).toRat = n := by
  obtain ⟨m, e, hm, rfl⟩ := h
  rcases Nat.eq_zero_or_pos m with rfl | hpos
  · exact ⟨0, by simp [Binary.ofMagnitude, Binary.toRat]⟩
  · -- the significand is moved to the left until it has 53 digits
    have hlog : m.log2 ≤ 52 := Nat.le_of_lt_succ ((Nat.log2_lt hpos.ne').mpr hm)
    have hlow : fractionSize ≤ m * 2 ^ (52 - m.log2) := by
      calc fractionSize = 2 ^ m.log2 * 2 ^ (52 - m.log2) := by
            rw [← pow_add, Nat.add_sub_cancel' hlog]
            rfl
        _ ≤ m * 2 ^ (52 - m.log2) := Nat.mul_le_mul_right _ (Nat.log2_self_le hpos.ne')
    have hhigh : m * 2 ^ (52 - m.log2) < 2 * fractionSize := by
      calc m * 2 ^ (52 - m.log2) < 2 ^ (m.log2 + 1) * 2 ^ (52 - m.log2) :=
            Nat.mul_lt_mul_of_pos_right Nat.lt_log2_self (Nat.two_pow_pos _)
        _ = 2 * fractionSize := by
            rw [← pow_add, show m.log2 + 1 + (52 - m.log2) = 53 by omega]
            rfl
    refine ⟨(e + 1074 - (52 - m.log2)) * fractionSize + m * 2 ^ (52 - m.log2), ?_⟩
    rw [Binary.ofMagnitude_of_normal _ hlow hhigh, Binary.toRat]
    push_cast
    rw [mul_assoc, ← zpow_natCast, ← zpow_add₀ (by norm_num), ← zpow_natCast]
    congr 2
    omega

theorem fitsSignificand_of_toRat_eq {k n : ℕ} (h : (Binary.ofMagnitude k).toRat = n) :
    FitsSignificand n := by
  have hlt := Binary.significand_ofMagnitude_lt k
  have hsize : 2 * fractionSize = 2 ^ 53 := by decide
  rw [Binary.toRat] at h
  generalize (Binary.ofMagnitude k).significand = m at *
  rcases Int.le_total 0 (Binary.ofMagnitude k).exponent with he | he
  · obtain ⟨e, he⟩ := Int.eq_ofNat_of_zero_le he
    rw [he, zpow_natCast] at h
    exact ⟨m, e, hsize ▸ hlt, by exact_mod_cast h.symm⟩
  · -- the significand is the number times a power of two, so the number is small
    obtain ⟨e, he⟩ := Int.exists_eq_neg_ofNat he
    rw [he, zpow_neg, zpow_natCast, ← div_eq_mul_inv, div_eq_iff (by positivity)] at h
    have hm : m = n * 2 ^ e := by exact_mod_cast h
    have hn : n ≤ m := hm ▸ Nat.le_mul_of_pos_right n (Nat.two_pow_pos e)
    exact ⟨n, 0, by omega, by rw [pow_zero, mul_one]⟩

/-- A finite double than which none is nearer to an integer, and which is the integer where that is
a double. -/
structure NearestTo (i : ℤ) (x : Float) : Prop where
  finite : x.isFinite = true
  nearest : ∀ y : Float, y.isFinite = true → |toRat x - i| ≤ |toRat y - i|
  exact_iff : toRat x = i ↔ FitsSignificand i.natAbs

theorem abs_toRat_signed_sub {i : ℤ} {bits : ℕ} (h : bits < infinityBits) :
    |toRat (signed (decide (i < 0)) bits) - i| = |(Binary.ofMagnitude bits).toRat - i.natAbs| := by
  rw [toRat, negative_signed h, magnitude_signed h]
  by_cases hneg : i < 0
  · have hi : (i : ℚ) = -(i.natAbs : ℚ) := by exact_mod_cast (by omega : i = -(i.natAbs : ℤ))
    rw [if_pos (decide_eq_true hneg), hi, neg_sub_neg, abs_sub_comm]
  · have hi : (i : ℚ) = (i.natAbs : ℚ) := by
      rw [← Int.cast_natCast, Int.natAbs_of_nonneg (not_lt.mp hneg)]
    rw [if_neg (by simpa using hneg), ← hi]

/-- The double with the sign of an integer and the magnitude that it rounds to is nearest to it. -/
theorem nearestTo_of_absorbs {i : ℤ} {bits : ℕ} (h : bits < infinityBits)
    (habs : (Binary.ofMagnitude bits).Absorbs i.natAbs) :
    NearestTo i (signed (decide (i < 0)) bits) := by
  have hcast : (i.natAbs : ℚ) = |(i : ℚ)| := by
    rw [← Int.cast_abs, Int.abs_eq_natAbs, Int.cast_natCast]
  constructor
  · exact isFinite_signed h _
  · intro y _
    calc |toRat (signed (decide (i < 0)) bits) - i|
        = |(Binary.ofMagnitude bits).toRat - i.natAbs| := abs_toRat_signed_sub h
      _ ≤ |(Binary.ofMagnitude (magnitude y)).toRat - i.natAbs| := habs.abs_sub_le _
      _ = |(|toRat y| - |(i : ℚ)|)| := by rw [abs_toRat, hcast]
      _ ≤ |toRat y - i| := abs_abs_sub_abs_le_abs_sub _ _
  · have hiff : toRat (signed (decide (i < 0)) bits) = i ↔
        (Binary.ofMagnitude bits).toRat = i.natAbs := by
      rw [← sub_eq_zero, ← abs_eq_zero, abs_toRat_signed_sub h, abs_eq_zero, sub_eq_zero]
    rw [hiff]
    refine ⟨fitsSignificand_of_toRat_eq, fun hfits => ?_⟩
    obtain ⟨k, hk⟩ := exists_ofMagnitude hfits
    have hle := habs.abs_sub_le k
    rw [hk, sub_self, abs_zero] at hle
    exact sub_eq_zero.mp (abs_eq_zero.mp (le_antisymm hle (abs_nonneg _)))

/-- The double of an integer below `2 ^ 1023` is the nearest one. -/
theorem nearestTo_ofInt {i : ℤ} (h : i.natAbs < 2 ^ 1023) : NearestTo i (ofInt i) := by
  rw [ofInt]
  split
  · next h0 =>
    subst h0
    exact nearestTo_of_absorbs (by decide) (by simpa using Binary.absorbs_zero)
  · next h0 =>
    have hn : (Ratio.mk i.natAbs 1).num ≠ 0 := Int.natAbs_ne_zero.mpr h0
    have hd : 0 < (Ratio.mk i.natAbs 1).den := Nat.one_pos
    have hvalue : (Ratio.mk i.natAbs 1).toRat = i.natAbs := by simp [Ratio.toRat]
    obtain ⟨bits, hbits⟩ := Ratio.exists_nearestBits? hn hd (by rw [hvalue]; exact_mod_cast h)
    obtain ⟨hlt, habs⟩ := Ratio.absorbs_of_nearestBits? hn hd hbits
    rw [hvalue] at habs
    rw [hbits]
    exact nearestTo_of_absorbs hlt habs

/-- A power of two is a double. -/
theorem toRat_ofInt_two_pow {e : ℕ} (h : e < 1023) : toRat (ofInt (2 ^ e)) = 2 ^ e := by
  have hnat : ((2 : ℤ) ^ e).natAbs = 1 * 2 ^ e := by rw [Int.natAbs_pow, one_mul]; rfl
  have hsmall : ((2 : ℤ) ^ e).natAbs < 2 ^ 1023 := by
    rw [hnat, one_mul]
    exact pow_lt_pow_right₀ one_lt_two h
  have hexact := (nearestTo_ofInt hsmall).exact_iff.mpr ⟨1, e, by decide, hnat⟩
  rw [hexact, Int.cast_pow, Int.cast_ofNat]

end HvacModel.Decimal
