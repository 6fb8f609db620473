import Mathlib
import HvacModel.Decimal.Shortest

/-! # The intervals of the doubles

Ratios stand for rational numbers, and the comparisons of the exact arithmetic are those of the
rationals.  The magnitude of a double is the bit pattern without its sign.  The upper end of the
interval that rounds to a magnitude is the lower end of the next one (`upper_ofMagnitude`), and an
end shared by two intervals belongs to the one with the even pattern, so no number rounds to two
magnitudes (`eq_of_absorbs`). -/

namespace HvacModel.Decimal

/-! ### Ratios -/

namespace Ratio

/-- The rational number of a ratio. -/
def toRat (r : Ratio) : ℚ := r.num / r.den

theorem toRat_scaled (n base : ℕ) (e : ℤ) :
    (scaled n base e).toRat = n * (base : ℚ) ^ e := by
  cases e with
  | ofNat e => simp [scaled, toRat]
  | negSucc e => simp [scaled, toRat, zpow_negSucc, div_eq_mul_inv]

theorem den_scaled_pos (n : ℕ) {base : ℕ} (hb : 0 < base) (e : ℤ) : 0 < (scaled n base e).den := by
  cases e with
  | ofNat e => exact Nat.one_pos
  | negSucc e => exact Nat.pow_pos hb

theorem le_iff {a b : Ratio} (ha : 0 < a.den) (hb : 0 < b.den) :
    a.le b = true ↔ a.toRat ≤ b.toRat := by
  have ha' : (0 : ℚ) < a.den := by exact_mod_cast ha
  have hb' : (0 : ℚ) < b.den := by exact_mod_cast hb
  rw [le, decide_eq_true_iff, toRat, toRat, div_le_div_iff₀ ha' hb']
  exact_mod_cast Iff.rfl

theorem lt_iff {a b : Ratio} (ha : 0 < a.den) (hb : 0 < b.den) :
    a.lt b = true ↔ a.toRat < b.toRat := by
  have ha' : (0 : ℚ) < a.den := by exact_mod_cast ha
  have hb' : (0 : ℚ) < b.den := by exact_mod_cast hb
  rw [lt, decide_eq_true_iff, toRat, toRat, div_lt_div_iff₀ ha' hb']
  exact_mod_cast Iff.rfl

theorem toRat_shiftTen (a : Ratio) (k : ℤ) : (a.shiftTen k).toRat = a.toRat / (10 : ℚ) ^ k := by
  cases k with
  | ofNat e => simp [shiftTen, toRat, div_div]
  | negSucc e => simp [shiftTen, toRat, zpow_negSucc, div_mul_eq_mul_div]

end Ratio

/-- The rational number of a decimal. -/
def Scientific.toRat (s : Scientific) : ℚ := s.digits * (10 : ℚ) ^ s.exponent

namespace Binary

/-! ### Intervals -/

/-- The rational number of a double. -/
def toRat (x : Binary) : ℚ := x.significand * (2 : ℚ) ^ x.exponent

/-- A quarter of the last place, in which the ends of the interval are whole. -/
def quarter (x : Binary) : ℚ := (2 : ℚ) ^ (x.exponent - 2)

theorem quarter_pos (x : Binary) : 0 < x.quarter := zpow_pos (by norm_num) _

/-- The rational numbers that round to a double. -/
def Absorbs (x : Binary) (r : ℚ) : Prop :=
  if x.significand % 2 = 0 then x.lower.toRat ≤ r ∧ r ≤ x.upper.toRat
  else x.lower.toRat < r ∧ r < x.upper.toRat

theorem absorbs_iff (x : Binary) {r : Ratio} (hr : 0 < r.den) :
    x.absorbs r = true ↔ x.Absorbs r.toRat := by
  have hl : 0 < x.lower.den := Ratio.den_scaled_pos _ (by decide) _
  have hu : 0 < x.upper.den := Ratio.den_scaled_pos _ (by decide) _
  rw [absorbs, Absorbs]
  split
  · rw [Bool.and_eq_true, Ratio.le_iff hl hr, Ratio.le_iff hr hu]
  · rw [Bool.and_eq_true, Ratio.lt_iff hl hr, Ratio.lt_iff hr hu]

theorem Absorbs.bounds {x : Binary} {r : ℚ} (h : x.Absorbs r) :
    x.lower.toRat ≤ r ∧ r ≤ x.upper.toRat := by
  rw [Absorbs] at h
  split at h
  · exact h
  · exact ⟨h.1.le, h.2.le⟩

theorem absorbs_of_between {x : Binary} {r : ℚ} (hl : x.lower.toRat < r) (hu : r < x.upper.toRat) :
    x.Absorbs r := by
  rw [Absorbs]
  split
  · exact ⟨hl.le, hu.le⟩
  · exact ⟨hl, hu⟩

theorem toRat_value (x : Binary) : x.value.toRat = x.toRat := by
  rw [value, Ratio.toRat_scaled, toRat, zpow_sub₀ (by norm_num)]
  push_cast
  ring

theorem toRat_eq_quarter (x : Binary) : x.toRat = 4 * x.significand * x.quarter := by
  rw [← toRat_value, value, Ratio.toRat_scaled, quarter]
  push_cast
  rfl

theorem toRat_upper (x : Binary) : x.upper.toRat = (4 * x.significand + 2) * x.quarter := by
  rw [upper, Ratio.toRat_scaled, quarter]
  push_cast
  rfl

theorem toRat_lower (x : Binary) :
    x.lower.toRat = (4 * x.significand - if x.lowerGapHalved then 1 else 2 : ℕ) * x.quarter := by
  rw [lower, Ratio.toRat_scaled, quarter]
  rfl

theorem lower_lt_upper (x : Binary) : x.lower.toRat < x.upper.toRat := by
  rw [toRat_lower, toRat_upper]
  refine mul_lt_mul_of_pos_right ?_ x.quarter_pos
  split <;> exact_mod_cast (by omega)

/-! ### Magnitudes -/

/-- The double of a bit pattern without sign. -/
def ofMagnitude (n : ℕ) : Binary :=
  if n / fractionSize = 0 then ⟨n % fractionSize, -1074, false⟩
  else ⟨fractionSize + n % fractionSize, (n / fractionSize : ℕ) - 1075,
    decide (n % fractionSize = 0 ∧ 1 < n / fractionSize)⟩

theorem ofBits_eq_ofMagnitude (bits : UInt64) :
    ofBits bits = ofMagnitude (bits.toNat % signBit) := by
  have hf : bits.toNat % signBit % fractionSize = bits.toNat % fractionSize :=
    Nat.mod_mod_of_dvd _ (by decide)
  have hq : bits.toNat % signBit / fractionSize = bits.toNat / fractionSize % 2048 := by
    have hs : signBit = fractionSize * 2048 := by decide
    rw [hs, Nat.mod_mul_right_div_self]
  rw [ofBits, ofMagnitude, hf, hq]
  rfl

theorem fractionSize_eq : fractionSize = 4503599627370496 := by decide

/-- The pattern and its significand are both even or both odd. -/
theorem significand_ofMagnitude_mod (n : ℕ) : (ofMagnitude n).significand % 2 = n % 2 := by
  rw [ofMagnitude, fractionSize_eq]
  split <;> simp only <;> omega

/-- A pattern by its exponent field and its fraction field. -/
theorem ofMagnitude_fields (biased : ℕ) {fraction : ℕ} (h : fraction < fractionSize) :
    ofMagnitude (fractionSize * biased + fraction) =
      if biased = 0 then ⟨fraction, -1074, false⟩
      else ⟨fractionSize + fraction, (biased : ℤ) - 1075, decide (fraction = 0 ∧ 1 < biased)⟩ := by
  have hd : (fractionSize * biased + fraction) / fractionSize = biased := by
    rw [Nat.mul_add_div (by decide), Nat.div_eq_of_lt h, Nat.add_zero]
  have hm : (fractionSize * biased + fraction) % fractionSize = fraction := by
    rw [Nat.mul_add_mod, Nat.mod_eq_of_lt h]
  rw [ofMagnitude, hd, hm]

/-- The next magnitude has the next significand, or the first one of the next exponent. -/
theorem ofMagnitude_succ (n : ℕ) :
    ofMagnitude (n + 1) =
      if (ofMagnitude n).significand + 1 < 2 * fractionSize then
        ⟨(ofMagnitude n).significand + 1, (ofMagnitude n).exponent, false⟩
      else ⟨fractionSize, (ofMagnitude n).exponent + 1, true⟩ := by
  have hlt : n % fractionSize < fractionSize := Nat.mod_lt _ (by decide)
  rw [← Nat.div_add_mod n fractionSize]
  generalize n / fractionSize = biased at *
  generalize n % fractionSize = fraction at *
  by_cases hnext : fraction + 1 < fractionSize
  · rw [Nat.add_assoc, ofMagnitude_fields _ hlt, ofMagnitude_fields _ hnext]
    by_cases hb : biased = 0
    · have hfits : fraction + 1 < 2 * fractionSize := by omega
      simp [hb, hfits]
    · have hfits : fractionSize + (fraction + 1) < 2 * fractionSize := by omega
      simp [hb, hfits, Nat.add_assoc]
  · -- the fraction is full, so the next magnitude starts the next exponent
    have hfull : fractionSize * biased + fraction + 1 = fractionSize * (biased + 1) + 0 := by
      rw [Nat.mul_add]
      omega
    rw [hfull, ofMagnitude_fields _ hlt, ofMagnitude_fields _ (by decide)]
    have hf : fraction + 1 = fractionSize := by omega
    by_cases hb : biased = 0
    · have hfits : fractionSize < 2 * fractionSize := by decide
      simp [hb, hf, hfits]
    · have hlast : ¬fractionSize + fraction + 1 < 2 * fractionSize := by omega
      have hpos : 0 < biased := Nat.pos_of_ne_zero hb
      simp [hb, hlast, hpos]
      omega

theorem significand_ofMagnitude_lt (n : ℕ) : (ofMagnitude n).significand < 2 * fractionSize := by
  have hlt : n % fractionSize < fractionSize := Nat.mod_lt _ (by decide)
  rw [ofMagnitude]
  split <;> simp only <;> omega

/-- The last significand of an exponent. -/
theorem significand_eq_of_last {n : ℕ}
    (h : ¬(ofMagnitude n).significand + 1 < 2 * fractionSize) :
    ((ofMagnitude n).significand : ℚ) = 2 * fractionSize - 1 := by
  have hlt := significand_ofMagnitude_lt n
  have heq : (ofMagnitude n).significand + 1 = 2 * fractionSize := by omega
  rw [eq_sub_iff_add_eq]
  exact_mod_cast heq

theorem quarter_succ (significand : ℕ) (exponent : ℤ) (halved : Bool) :
    quarter ⟨significand, exponent + 1, halved⟩ = 2 * 2 ^ (exponent - 2) := by
  rw [quarter, ← zpow_one_add₀ (by norm_num)]
  congr 1
  ring

/-- The next magnitude is one unit of the last place away. -/
theorem toRat_ofMagnitude_succ (n : ℕ) :
    (ofMagnitude (n + 1)).toRat = (ofMagnitude n).toRat + 4 * (ofMagnitude n).quarter := by
  rw [ofMagnitude_succ, toRat_eq_quarter, toRat_eq_quarter]
  split
  · simp only [quarter]
    push_cast
    ring
  · next hlast =>
    rw [quarter_succ, significand_eq_of_last hlast, quarter]
    ring

/-- The intervals of neighbouring magnitudes meet. -/
theorem upper_ofMagnitude (n : ℕ) :
    (ofMagnitude n).upper.toRat = (ofMagnitude (n + 1)).lower.toRat := by
  rw [ofMagnitude_succ, toRat_upper, toRat_lower]
  split
  · simp [quarter, mul_add]
  · next hlast =>
    have hfirst : ((4 * fractionSize - 1 : ℕ) : ℚ) = 4 * fractionSize - 1 := by
      rw [fractionSize_eq]
      norm_num
    rw [if_pos rfl, hfirst, quarter_succ, significand_eq_of_last hlast, quarter]
    ring

theorem absorbs_zero : (ofMagnitude 0).Absorbs 0 := by
  have hzero : (ofMagnitude 0).significand = 0 := rfl
  have hpos := (ofMagnitude 0).quarter_pos
  rw [Absorbs, significand_ofMagnitude_mod, if_pos (Nat.zero_mod 2), toRat_lower, toRat_upper, hzero]
  constructor <;> simp [hpos.le]

/-! ### One magnitude for a number -/

/-- Greater magnitudes have greater intervals. -/
theorem lower_ofMagnitude_strictMono : StrictMono fun n => (ofMagnitude n).lower.toRat :=
  strictMono_nat_of_lt_succ fun n => upper_ofMagnitude n ▸ lower_lt_upper _

/-- A number that rounds to two magnitudes would be the end that they share, which belongs to the
even one only. -/
theorem not_absorbs_of_lt {m n : ℕ} {r : ℚ} (h : m < n) (hm : (ofMagnitude m).Absorbs r) :
    ¬(ofMagnitude n).Absorbs r := by
  intro hn
  have hmono : (ofMagnitude (m + 1)).lower.toRat ≤ (ofMagnitude n).lower.toRat :=
    lower_ofMagnitude_strictMono.monotone h
  have hle : r ≤ (ofMagnitude (m + 1)).lower.toRat := upper_ofMagnitude m ▸ hm.bounds.2
  have hge : (ofMagnitude n).lower.toRat ≤ r := hn.bounds.1
  have hnext : m + 1 = n :=
    lower_ofMagnitude_strictMono.injective (le_antisymm hmono (hge.trans hle))
  subst hnext
  rw [Absorbs, significand_ofMagnitude_mod, upper_ofMagnitude] at hm
  rw [Absorbs, significand_ofMagnitude_mod] at hn
  split at hm
  · rw [if_neg (by omega)] at hn
    exact absurd hn.1 (not_lt.2 hm.2)
  · exact absurd hm.2 (not_lt.2 hge)

theorem eq_of_absorbs {m n : ℕ} {r : ℚ} (hm : (ofMagnitude m).Absorbs r)
    (hn : (ofMagnitude n).Absorbs r) : m = n := by
  by_contra hne
  obtain h | h := Nat.lt_or_gt_of_ne hne
  · exact not_absorbs_of_lt h hm hn
  · exact not_absorbs_of_lt h hn hm

end Binary

end HvacModel.Decimal
