import HvacModel.Decimal.Nearest
import HvacModel.Proofs.Decimal.Shortest

/-! # The nearest double

What rounds to a magnitude is at least as near to it as to any other one (`Absorbs.abs_sub_le`), so
a rounding is correct when its result absorbs its argument.  That of a ratio is correct
(`Ratio.absorbs_of_nearestBits?`): the unit of the last place leaves a quotient of at most 53 bits
(`Ratio.unit_bounds`), the quotient is rounded to a natural number that is no more than a half away
(`RoundsTo`), and a quotient that rounds up to the next power of two gives the first significand of
the next exponent. -/

namespace HvacModel.Decimal

/-! ### Distances -/

namespace Binary

theorem toRat_upper_eq_add (x : Binary) : x.upper.toRat = x.toRat + 2 * x.quarter := by
  rw [toRat_upper, toRat_eq_quarter]
  ring

theorem toRat_ofMagnitude_strictMono : StrictMono fun n => (ofMagnitude n).toRat :=
  strictMono_nat_of_lt_succ fun n => by
    have hpos := (ofMagnitude n).quarter_pos
    rw [toRat_ofMagnitude_succ]
    linarith

/-- What rounds to a magnitude is nearer to no other one. -/
theorem Absorbs.abs_sub_le {m : ℕ} {r : ℚ} (h : (ofMagnitude m).Absorbs r) (n : ℕ) :
    |(ofMagnitude m).toRat - r| ≤ |(ofMagnitude n).toRat - r| := by
  obtain ⟨hlower, hupper⟩ := h.bounds
  have hmono := toRat_ofMagnitude_strictMono.monotone
  rcases Nat.lt_trichotomy m n with hlt | rfl | hgt
  · -- the upper end is half way to the next one, and the other is no nearer than that
    have hnext : (ofMagnitude (m + 1)).toRat ≤ (ofMagnitude n).toRat := hmono hlt
    have hpos := (ofMagnitude m).quarter_pos
    rw [toRat_ofMagnitude_succ] at hnext
    rw [toRat_upper_eq_add] at hupper
    rw [abs_of_nonneg (a := (ofMagnitude n).toRat - r) (by linarith), abs_le]
    constructor <;> linarith
  · exact le_rfl
  · obtain ⟨k, rfl⟩ : ∃ k, m = k + 1 := ⟨m - 1, by omega⟩
    have hbelow : (ofMagnitude n).toRat ≤ (ofMagnitude k).toRat := hmono (Nat.le_of_lt_succ hgt)
    have hpos := (ofMagnitude k).quarter_pos
    rw [← upper_ofMagnitude, toRat_upper_eq_add] at hlower
    rw [toRat_ofMagnitude_succ, abs_sub_comm (ofMagnitude n).toRat,
      abs_of_nonneg (a := r - (ofMagnitude n).toRat) (by linarith), abs_le]
    constructor <;> linarith

end Binary

/-! ### Rounding a quotient -/

theorem fractionSize_pos : 0 < fractionSize := by decide

/-- The least number over a unit with a significand of 53 bits. -/
theorem two_zpow_add_52 (unit : ℤ) : (2 : ℚ) ^ (unit + 52) = fractionSize * 2 ^ unit := by
  rw [zpow_add₀ (by norm_num), mul_comm, Binary.fractionSize_eq]
  norm_num

theorem two_zpow_add_53 (unit : ℤ) : (2 : ℚ) ^ (unit + 53) = 2 * fractionSize * 2 ^ unit := by
  rw [zpow_add₀ (by norm_num), mul_comm, Binary.fractionSize_eq]
  norm_num

/-- A natural number that is at most a half away, and less than that if it is odd. -/
def RoundsTo (x : ℚ) (q : ℕ) : Prop :=
  if q % 2 = 0 then 2 * (q : ℚ) - 1 ≤ 2 * x ∧ 2 * x ≤ 2 * q + 1
  else 2 * (q : ℚ) - 1 < 2 * x ∧ 2 * x < 2 * q + 1

theorem RoundsTo.bounds {x : ℚ} {q : ℕ} (h : RoundsTo x q) :
    2 * (q : ℚ) - 1 ≤ 2 * x ∧ 2 * x ≤ 2 * q + 1 := by
  rw [RoundsTo] at h
  split at h
  · exact h
  · exact ⟨h.1.le, h.2.le⟩

theorem roundsTo_of_between {x : ℚ} {q : ℕ} (hl : 2 * (q : ℚ) - 1 < 2 * x)
    (hu : 2 * x < 2 * q + 1) : RoundsTo x q := by
  rw [RoundsTo]
  split
  · exact ⟨hl.le, hu.le⟩
  · exact ⟨hl, hu⟩

theorem roundsTo_roundDiv (num : ℕ) {den : ℕ} (hd : 0 < den) :
    RoundsTo (num / den) (roundDiv num den) := by
  have hden : (0 : ℚ) < den := by exact_mod_cast hd
  have hnum : (num : ℚ) = (num / den : ℕ) * den + (num % den : ℕ) := by
    exact_mod_cast (Nat.div_add_mod' num den).symm
  rw [hnum, add_div, mul_div_cancel_right₀ _ hden.ne', roundDiv]
  have hrest : 0 ≤ ((num % den : ℕ) : ℚ) / den := by positivity
  have hless : ((num % den : ℕ) : ℚ) / den < 1 := by
    rw [div_lt_one hden]
    exact_mod_cast Nat.mod_lt num hd
  generalize num / den = q
  generalize num % den = rest at *
  obtain hlow | hhigh | htie : 2 * rest < den ∨ den < 2 * rest ∨ 2 * rest = den := by omega
  · have hhalf : 2 * ((rest : ℚ) / den) < 1 := by
      rw [← mul_div_assoc, div_lt_one hden]
      exact_mod_cast hlow
    rw [if_pos hlow]
    exact roundsTo_of_between (by linarith) (by linarith)
  · have hhalf : 1 < 2 * ((rest : ℚ) / den) := by
      rw [← mul_div_assoc, one_lt_div hden]
      exact_mod_cast hhigh
    rw [if_neg (Nat.lt_asymm hhigh), if_pos hhigh]
    refine roundsTo_of_between ?_ ?_ <;> push_cast <;> linarith
  · -- a half goes to the even neighbour, which may be that far away
    have hhalf : 2 * ((rest : ℚ) / den) = 1 := by
      rw [← mul_div_assoc, div_eq_one_iff_eq hden.ne']
      exact_mod_cast htie
    rw [if_neg (by omega), if_neg (by omega)]
    by_cases heven : q % 2 = 0
    · rw [if_pos heven, RoundsTo, if_pos heven]
      constructor <;> linarith
    · rw [if_neg heven, RoundsTo, if_pos (by omega)]
      push_cast
      constructor <;> linarith

namespace Ratio

/-- The quotient by a power of two rounds to what is made of it. -/
theorem roundsTo_roundToUnit {r : Ratio} (hd : 0 < r.den) (unit : ℤ) :
    RoundsTo (r.toRat / 2 ^ unit) (r.roundToUnit unit) := by
  cases unit with
  | ofNat e =>
      have hpos : 0 < r.den * 2 ^ e := Nat.mul_pos hd (Nat.two_pow_pos e)
      have hround := roundsTo_roundDiv r.num hpos
      rw [Int.ofNat_eq_natCast, zpow_natCast, toRat, div_div]
      exact_mod_cast hround
  | negSucc e =>
      have hround := roundsTo_roundDiv (r.num * 2 ^ (e + 1)) hd
      rw [zpow_negSucc, toRat, div_inv_eq_mul, div_mul_eq_mul_div]
      exact_mod_cast hround

theorem le_scaled_fractionSize_iff {r : Ratio} (hd : 0 < r.den) (e : ℤ) :
    (scaled fractionSize 2 e).le r = true ↔ (2 : ℚ) ^ (e + 52) ≤ r.toRat := by
  rw [le_iff (den_scaled_pos _ (by decide) _) hd, toRat_scaled, Nat.cast_ofNat, two_zpow_add_52]

/-- The unit leaves a quotient of 53 bits, and of fewer only where it is the least unit. -/
theorem unit_bounds {r : Ratio} (hn : r.num ≠ 0) (hd : 0 < r.den) :
    -1074 ≤ r.unit ∧ r.toRat < 2 ^ (r.unit + 53) ∧
      (r.unit = -1074 ∨ (2 : ℚ) ^ (r.unit + 52) ≤ r.toRat) := by
  obtain ⟨guess, hguess⟩ : ∃ e : ℤ, (r.num.log2 : ℤ) - r.den.log2 = e + 53 :=
    ⟨_, (sub_add_cancel _ _).symm⟩
  have hlow := two_zpow_le hn hd
  have hhigh := lt_two_zpow hd
  rw [hguess, add_sub_assoc] at hlow
  rw [hguess, add_right_comm] at hhigh
  obtain ⟨leading, hunit, hle, hlt⟩ : ∃ e, r.unit = max e (-1074) ∧
      (2 : ℚ) ^ (e + 52) ≤ r.toRat ∧ r.toRat < 2 ^ (e + 53) := by
    simp only [unit, Int.ofNat_eq_natCast, hguess, add_sub_cancel_right]
    split
    · next h => exact ⟨guess + 1, rfl, (le_scaled_fractionSize_iff hd _).mp h, hhigh⟩
    · next h =>
      rw [le_scaled_fractionSize_iff hd, not_le, add_assoc] at h
      exact ⟨guess, rfl, hlow, h⟩
  rcases le_total (-1074) leading with h | h
  · rw [hunit, max_eq_left h]
    exact ⟨h, hlt, .inr hle⟩
  · rw [hunit, max_eq_right h]
    exact ⟨le_rfl, hlt.trans_le (zpow_le_zpow_right₀ (by norm_num) (by omega)), .inl rfl⟩

end Ratio

namespace Binary

theorem toRat_lower_of_pos {x : Binary} (h : 0 < x.significand) :
    x.lower.toRat = (4 * x.significand - if x.lowerGapHalved then 1 else 2) * x.quarter := by
  have hgap : (if x.lowerGapHalved then 1 else 2) ≤ 4 * x.significand := by split <;> omega
  rw [toRat_lower, Nat.cast_sub hgap]
  push_cast
  rfl

theorem two_zpow_exponent (x : Binary) : (2 : ℚ) ^ x.exponent = 2 * (2 * x.quarter) := by
  rw [quarter, zpow_sub₀ (by norm_num), ← mul_assoc, mul_div_assoc']
  norm_num

/-- A number rounds to a double when its quotient rounds to the significand; where the gap below is
halved, the number must not be below the double. -/
theorem absorbs_of_roundsTo {x : Binary} {r : ℚ} (h0 : 0 ≤ r)
    (h : RoundsTo (r / 2 ^ x.exponent) x.significand)
    (hhalved : x.lowerGapHalved = true → x.toRat ≤ r) : x.Absorbs r := by
  have hpos : 0 < 2 * x.quarter := mul_pos two_pos x.quarter_pos
  have hr : r = 2 * (r / 2 ^ x.exponent) * (2 * x.quarter) := by
    rw [mul_comm (2 : ℚ), mul_assoc, ← two_zpow_exponent,
      div_mul_cancel₀ _ (zpow_ne_zero _ (by norm_num))]
  have hupper : x.upper.toRat = (2 * x.significand + 1) * (2 * x.quarter) := by
    rw [toRat_upper]
    ring
  generalize r / 2 ^ x.exponent = y at *
  subst hr
  rcases Nat.eq_zero_or_pos x.significand with hs | hs
  · have hlower : x.lower.toRat = 0 := by
      rw [toRat_lower, hs]
      simp
    rw [Absorbs, hs, if_pos rfl, hlower, hupper]
    exact ⟨h0, mul_le_mul_of_nonneg_right h.bounds.2 hpos.le⟩
  · have hlower := toRat_lower_of_pos hs
    rw [RoundsTo] at h
    rw [Absorbs, hupper]
    by_cases hgap : x.lowerGapHalved = true
    · have hlt : x.lower.toRat < 2 * y * (2 * x.quarter) := by
        have hle := hhalved hgap
        rw [toRat_eq_quarter] at hle
        rw [hlower, if_pos hgap]
        linarith
      split_ifs at h ⊢
      · exact ⟨hlt.le, mul_le_mul_of_nonneg_right h.2 hpos.le⟩
      · exact ⟨hlt, mul_lt_mul_of_pos_right h.2 hpos⟩
    · have hlower : x.lower.toRat = (2 * x.significand - 1) * (2 * x.quarter) := by
        rw [hlower, if_neg hgap]
        ring
      rw [hlower]
      split_ifs at h ⊢
      · exact ⟨mul_le_mul_of_nonneg_right h.1 hpos.le, mul_le_mul_of_nonneg_right h.2 hpos.le⟩
      · exact ⟨mul_lt_mul_of_pos_right h.1 hpos, mul_lt_mul_of_pos_right h.2 hpos⟩

/-- The magnitude of a significand of 53 bits over a unit. -/
theorem ofMagnitude_of_normal (unit : ℕ) {q : ℕ} (hle : fractionSize ≤ q)
    (hlt : q < 2 * fractionSize) :
    ofMagnitude (unit * fractionSize + q) =
      ⟨q, (unit : ℤ) - 1074, decide (q = fractionSize ∧ 0 < unit)⟩ := by
  obtain ⟨fraction, rfl⟩ : ∃ f, q = fractionSize + f := ⟨q - fractionSize, by omega⟩
  have hpattern : unit * fractionSize + (fractionSize + fraction) =
      fractionSize * (unit + 1) + fraction := by ring
  have hexponent : ((unit + 1 : ℕ) : ℤ) - 1075 = unit - 1074 := by omega
  rw [hpattern, ofMagnitude_fields _ (by omega), if_neg (Nat.succ_ne_zero unit), hexponent]
  simp

theorem ofMagnitude_of_subnormal {q : ℕ} (h : q < fractionSize) :
    ofMagnitude q = ⟨q, -1074, false⟩ := by
  have hfields := ofMagnitude_fields 0 h
  rwa [Nat.mul_zero, Nat.zero_add, if_pos rfl] at hfields

/-- A quotient that rounds up to 54 bits carries into the exponent. -/
theorem ofMagnitude_of_carry (unit : ℕ) :
    ofMagnitude (unit * fractionSize + 2 * fractionSize) =
      ⟨fractionSize, (unit : ℤ) - 1074 + 1, true⟩ := by
  have hpattern : unit * fractionSize + 2 * fractionSize = fractionSize * (unit + 2) + 0 := by ring
  have hexponent : ((unit + 2 : ℕ) : ℤ) - 1075 = unit - 1074 + 1 := by omega
  rw [hpattern, ofMagnitude_fields _ (by decide), if_neg (by omega), hexponent]
  simp

/-- The significand of a power of two is even, so both ends belong to its interval. -/
theorem absorbs_of_carry {exponent : ℤ} {r : ℚ}
    (hround : RoundsTo (r / 2 ^ exponent) (2 * fractionSize)) (hlt : r < 2 ^ (exponent + 53)) :
    Absorbs ⟨fractionSize, exponent + 1, true⟩ r := by
  have heven : fractionSize % 2 = 0 := by decide
  have hpos : (0 : ℚ) < 2 ^ exponent := zpow_pos two_pos _
  have hquarter : quarter ⟨fractionSize, exponent + 1, true⟩ = 2 ^ exponent / 2 := by
    rw [quarter_succ, zpow_sub₀ (by norm_num)]
    ring
  have hlow := hround.bounds.1
  rw [← mul_div_assoc, le_div_iff₀ hpos] at hlow
  push_cast at hlow
  rw [two_zpow_add_53] at hlt
  rw [Absorbs, if_pos heven, toRat_lower_of_pos fractionSize_pos, toRat_upper, if_pos rfl,
    hquarter]
  constructor <;> linarith

/-- A number rounds to the pattern of its unit and its rounded quotient. -/
theorem absorbs_ofMagnitude_unit {unit q : ℕ} {r : ℚ} (h0 : 0 ≤ r)
    (hround : RoundsTo (r / 2 ^ ((unit : ℤ) - 1074)) q) (hle : q ≤ 2 * fractionSize)
    (hlt : r < 2 ^ ((unit : ℤ) - 1074 + 53))
    (hleast : unit = 0 ∨ fractionSize ≤ q ∧ (2 : ℚ) ^ ((unit : ℤ) - 1074 + 52) ≤ r) :
    (ofMagnitude (unit * fractionSize + q)).Absorbs r := by
  obtain hsub | hnormal | hcarry :
      q < fractionSize ∨ (fractionSize ≤ q ∧ q < 2 * fractionSize) ∨ q = 2 * fractionSize := by
    omega
  · obtain rfl : unit = 0 := hleast.resolve_right fun h => Nat.not_lt.mpr h.1 hsub
    rw [Nat.zero_mul, Nat.zero_add, ofMagnitude_of_subnormal hsub]
    exact absorbs_of_roundsTo h0 hround nofun
  · rw [ofMagnitude_of_normal unit hnormal.1 hnormal.2]
    refine absorbs_of_roundsTo h0 hround fun hhalved => ?_
    obtain ⟨rfl, hpos⟩ := of_decide_eq_true hhalved
    rw [toRat, ← two_zpow_add_52]
    exact (hleast.resolve_left hpos.ne').2
  · subst hcarry
    rw [ofMagnitude_of_carry]
    exact absorbs_of_carry hround hlt

end Binary

/-! ### Rounding a ratio -/

namespace Ratio

variable {r : Ratio}

theorem roundToUnit_le (hn : r.num ≠ 0) (hd : 0 < r.den) :
    r.roundToUnit r.unit ≤ 2 * fractionSize := by
  obtain ⟨-, hlt, -⟩ := unit_bounds hn hd
  obtain ⟨hlow, -⟩ := (roundsTo_roundToUnit hd r.unit).bounds
  rw [two_zpow_add_53, ← div_lt_iff₀ (zpow_pos two_pos _)] at hlt
  have hbound : 2 * (r.roundToUnit r.unit : ℚ) < 2 * (2 * fractionSize) + 1 := by linarith
  have hnat : 2 * r.roundToUnit r.unit < 2 * (2 * fractionSize) + 1 := by exact_mod_cast hbound
  omega

theorem le_roundToUnit (hd : 0 < r.den) (h : (2 : ℚ) ^ (r.unit + 52) ≤ r.toRat) :
    fractionSize ≤ r.roundToUnit r.unit := by
  obtain ⟨-, hhigh⟩ := (roundsTo_roundToUnit hd r.unit).bounds
  rw [two_zpow_add_52, ← le_div_iff₀ (zpow_pos two_pos _)] at h
  have hbound : 2 * (fractionSize : ℚ) ≤ 2 * r.roundToUnit r.unit + 1 := by linarith
  have hnat : 2 * fractionSize ≤ 2 * r.roundToUnit r.unit + 1 := by exact_mod_cast hbound
  omega

/-- A ratio rounds to the magnitude that is computed from it. -/
theorem absorbs_of_nearestBits? (hn : r.num ≠ 0) (hd : 0 < r.den) {bits : ℕ}
    (h : r.nearestBits? = some bits) :
    bits < infinityBits ∧ (Binary.ofMagnitude bits).Absorbs r.toRat := by
  obtain ⟨hmin, hlt, hleast⟩ := unit_bounds hn hd
  have h0 : 0 ≤ r.toRat := div_nonneg (Nat.cast_nonneg _) (Nat.cast_nonneg _)
  obtain ⟨unit, hunit⟩ : ∃ u : ℕ, r.unit = u - 1074 := ⟨(r.unit + 1074).toNat, by omega⟩
  have hfield : (r.unit + 1074).toNat = unit := by omega
  simp only [nearestBits?, hfield] at h
  split at h
  · next hbits =>
    cases h
    refine ⟨hbits, Binary.absorbs_ofMagnitude_unit h0 ?_ (roundToUnit_le hn hd) (hunit ▸ hlt) ?_⟩
    · rw [← hunit]
      exact roundsTo_roundToUnit hd r.unit
    · refine hleast.imp (fun h => by omega) fun h => ?_
      rw [← hunit]
      exact ⟨le_roundToUnit hd h, h⟩
  · cases h

/-- A ratio far below the greatest double rounds to a finite one. -/
theorem exists_nearestBits? (hn : r.num ≠ 0) (hd : 0 < r.den) (h : r.toRat < 2 ^ (1023 : ℤ)) :
    ∃ bits, r.nearestBits? = some bits := by
  obtain ⟨hmin, -, hleast⟩ := unit_bounds hn hd
  have hunit : r.unit ≤ 970 := by
    rcases hleast with hleast | hleast
    · omega
    · have hlt := (zpow_lt_zpow_iff_right₀ (by norm_num : (1 : ℚ) < 2)).mp (hleast.trans_lt h)
      omega
  have hbits : (r.unit + 1074).toNat * fractionSize + r.roundToUnit r.unit < infinityBits := by
    calc (r.unit + 1074).toNat * fractionSize + r.roundToUnit r.unit
        ≤ 2044 * fractionSize + 2 * fractionSize :=
          Nat.add_le_add (Nat.mul_le_mul_right _ (by omega)) (roundToUnit_le hn hd)
      _ < infinityBits := by decide
  exact ⟨_, if_pos hbits⟩

end Ratio

end HvacModel.Decimal
