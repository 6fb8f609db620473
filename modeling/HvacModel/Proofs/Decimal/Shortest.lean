import HvacModel.Proofs.Decimal.Magnitude

/-! # The shortest decimal rounds back

The search of `Binary.shortest` finds a hit on one of its grids: the leading power of ten is not
greater than the number (`zpow_decimalPoint_le`), so with seventeen digits the grid is finer than
the interval and the nearer neighbour lies inside it (`isSome_onGrid?`).  What is found rounds to the
double (`absorbs_shortest`). -/

namespace HvacModel.Decimal

/-! ### The place of the leading digit -/

/-- Powers compare as their powers do. -/
theorem zpow_le_zpow_of_mul {k x : ℤ} {q : ℕ} (hq : q ≠ 0)
    (h : (10 : ℚ) ^ (k * q) ≤ 2 ^ (x * q)) : (10 : ℚ) ^ k ≤ 2 ^ x := by
  rw [zpow_mul, zpow_mul, zpow_natCast, zpow_natCast] at h
  exact (pow_le_pow_iff_left₀ (by positivity) (by positivity) hq).1 h

/-- In the range of the doubles `30103 / 100000` is near enough to the logarithm of two. -/
theorem ten_zpow_le_two_zpow {x : ℤ} (hlo : -1100 ≤ x) (hhi : x ≤ 1100) :
    (10 : ℚ) ^ (x * 30103 / 100000 - 2) ≤ 2 ^ x := by
  obtain hx | hx := le_or_gt 0 x
  · refine zpow_le_zpow_of_mul (q := 10) (by decide) ?_
    calc (10 : ℚ) ^ ((x * 30103 / 100000 - 2) * (10 : ℕ))
        ≤ 10 ^ (3 * x) := zpow_le_zpow_right₀ (by norm_num) (by omega)
      _ = ((10 : ℚ) ^ 3) ^ x := by rw [zpow_mul]; rfl
      _ ≤ ((2 : ℚ) ^ 10) ^ x := zpow_le_zpow_left₀ hx (by norm_num) (by norm_num)
      _ = 2 ^ (x * (10 : ℕ)) := by rw [mul_comm, zpow_mul]; rfl
  · refine zpow_le_zpow_of_mul (q := 93) (by decide) ?_
    calc (10 : ℚ) ^ ((x * 30103 / 100000 - 2) * (93 : ℕ))
        ≤ 10 ^ (28 * x) := zpow_le_zpow_right₀ (by norm_num) (by omega)
      _ = ((10 : ℚ) ^ 28) ^ x := by rw [zpow_mul]; rfl
      _ ≤ ((2 : ℚ) ^ 93) ^ x := by
          rw [← inv_le_inv₀ (by positivity) (by positivity), ← zpow_neg, ← zpow_neg]
          exact zpow_le_zpow_left₀ (by omega) (by norm_num) (by norm_num)
      _ = 2 ^ (x * (93 : ℕ)) := by rw [mul_comm, zpow_mul]; rfl

namespace Ratio

theorem two_zpow_le {r : Ratio} (hn : r.num ≠ 0) (hd : 0 < r.den) :
    (2 : ℚ) ^ ((r.num.log2 : ℤ) - r.den.log2 - 1) ≤ r.toRat := by
  have hd' : (0 : ℚ) < r.den := by exact_mod_cast hd
  have hnum : (2 : ℚ) ^ r.num.log2 ≤ r.num := by exact_mod_cast Nat.log2_self_le hn
  have hden : (r.den : ℚ) ≤ 2 ^ (r.den.log2 + 1) := by exact_mod_cast Nat.lt_log2_self.le
  rw [toRat, le_div_iff₀ hd']
  calc (2 : ℚ) ^ ((r.num.log2 : ℤ) - r.den.log2 - 1) * r.den
      ≤ 2 ^ ((r.num.log2 : ℤ) - r.den.log2 - 1) * 2 ^ (r.den.log2 + 1) := by gcongr
    _ = 2 ^ r.num.log2 := by
        rw [← zpow_natCast, ← zpow_natCast, ← zpow_add₀ (by norm_num)]
        congr 1
        push_cast
        ring
    _ ≤ r.num := hnum

theorem lt_two_zpow {r : Ratio} (hd : 0 < r.den) :
    r.toRat < (2 : ℚ) ^ ((r.num.log2 : ℤ) - r.den.log2 + 1) := by
  have hd' : (0 : ℚ) < r.den := by exact_mod_cast hd
  have hnum : (r.num : ℚ) < 2 ^ (r.num.log2 + 1) := by exact_mod_cast Nat.lt_log2_self
  have hden : (2 : ℚ) ^ r.den.log2 ≤ r.den := by exact_mod_cast Nat.log2_self_le hd.ne'
  rw [toRat, div_lt_iff₀ hd']
  calc (r.num : ℚ) < 2 ^ (r.num.log2 + 1) := hnum
    _ = 2 ^ ((r.num.log2 : ℤ) - r.den.log2 + 1) * 2 ^ r.den.log2 := by
        rw [← zpow_natCast, ← zpow_natCast, ← zpow_add₀ (by norm_num)]
        congr 1
        push_cast
        ring
    _ ≤ 2 ^ ((r.num.log2 : ℤ) - r.den.log2 + 1) * r.den := by gcongr

theorem toRat_scaled_one (e : ℤ) : (scaled 1 10 e).toRat = (10 : ℚ) ^ e := by
  simp [toRat_scaled]

/-- The search stops before a power of ten that is not greater than the number. -/
theorem zpow_firstAbove_le {r : Ratio} (hd : 0 < r.den) (steps : ℕ) {e : ℤ}
    (h : (10 : ℚ) ^ (e - 1) ≤ r.toRat) : (10 : ℚ) ^ (r.firstAbove steps e - 1) ≤ r.toRat := by
  induction steps generalizing e with
  | zero => exact h
  | succ steps ih =>
      rw [firstAbove]
      split
      · exact h
      · next hlt =>
        rw [lt_iff hd (den_scaled_pos _ (by decide) _), toRat_scaled_one, not_lt] at hlt
        exact ih (by rwa [add_sub_cancel_right])

/-- The leading power of ten. -/
theorem zpow_decimalPoint_le {r : Ratio} (hn : r.num ≠ 0) (hd : 0 < r.den)
    (hlo : (2 : ℚ) ^ (-1076 : ℤ) ≤ r.toRat) (hhi : r.toRat ≤ 2 ^ (1024 : ℤ)) :
    (10 : ℚ) ^ (r.decimalPoint - 1) ≤ r.toRat := by
  have hle := two_zpow_le hn hd
  have hlt := lt_two_zpow hd
  have hmin : -1076 < (r.num.log2 : ℤ) - r.den.log2 + 1 :=
    (zpow_lt_zpow_iff_right₀ (by norm_num : (1 : ℚ) < 2)).1 (hlo.trans_lt hlt)
  have hmax : (r.num.log2 : ℤ) - r.den.log2 - 1 ≤ 1024 :=
    (zpow_le_zpow_iff_right₀ (by norm_num : (1 : ℚ) < 2)).1 (hle.trans hhi)
  have hstart := ten_zpow_le_two_zpow (x := (r.num.log2 : ℤ) - r.den.log2 - 1) (by omega) (by omega)
  refine zpow_firstAbove_le hd 8 (le_trans ?_ hle)
  rw [sub_sub]
  exact hstart

end Ratio

/-! ### Grids -/

theorem toRat_scaled_ten (n : ℕ) (k : ℤ) :
    (Ratio.scaled n 10 k).toRat = Scientific.toRat ⟨n, k⟩ := by
  rw [Ratio.toRat_scaled]
  rfl

namespace Binary

/-- A hit rounds to the double. -/
theorem absorbs_of_onGrid? {x : Binary} {tie : Tie} {k : ℤ} {s : Scientific}
    (h : x.onGrid? tie k = some s) : x.Absorbs s.toRat := by
  have hfits : ∀ n, x.absorbs (.scaled n 10 k) = true → x.Absorbs (Scientific.toRat ⟨n, k⟩) := by
    intro n hn
    rwa [absorbs_iff x (Ratio.den_scaled_pos _ (by decide) _), toRat_scaled_ten] at hn
  simp only [onGrid?, Bool.and_eq_true] at h
  split at h
  · next hboth =>
    split at h
    · cases h
      exact hfits _ hboth.1
    · split at h
      · cases h
        exact hfits _ hboth.2
      · cases h
        cases tie with
        | up => exact hfits _ hboth.2
        | toEven =>
            simp only [Tie.choose]
            split
            · exact hfits _ hboth.1
            · exact hfits _ hboth.2
  · split at h
    · next hlow =>
      cases h
      exact hfits _ hlow
    · split at h
      · next hhigh =>
        cases h
        exact hfits _ hhigh
      · cases h

/-- A grid with less than twice the way to either end of the interval has a hit. -/
theorem isSome_onGrid? {x : Binary} {k : ℤ} (tie : Tie)
    (hl : (10 : ℚ) ^ k < 2 * (x.toRat - x.lower.toRat))
    (hu : (10 : ℚ) ^ k < 2 * (x.upper.toRat - x.toRat)) : (x.onGrid? tie k).isSome := by
  have hpos : (0 : ℚ) < 10 ^ k := zpow_pos (by norm_num) k
  set v := x.value.shiftTen k with hv
  have hlow : (v.num / v.den : ℕ) = ⌊x.toRat / 10 ^ k⌋₊ := by
    rw [← toRat_value, ← Ratio.toRat_shiftTen, Ratio.toRat, Nat.floor_div_eq_div]
  have hx : 0 ≤ x.toRat / 10 ^ k :=
    div_nonneg (mul_nonneg (Nat.cast_nonneg _) (zpow_nonneg (by norm_num) _)) hpos.le
  have hle : Scientific.toRat ⟨v.num / v.den, k⟩ ≤ x.toRat := by
    rw [Scientific.toRat, hlow, ← le_div_iff₀ hpos]
    exact Nat.floor_le hx
  have hlt : x.toRat < Scientific.toRat ⟨v.num / v.den + 1, k⟩ := by
    rw [Scientific.toRat, hlow, ← div_lt_iff₀ hpos]
    exact_mod_cast Nat.lt_floor_add_one _
  have hgap : Scientific.toRat ⟨v.num / v.den + 1, k⟩ =
      Scientific.toRat ⟨v.num / v.den, k⟩ + 10 ^ k := by
    simp only [Scientific.toRat]
    push_cast
    ring
  have hfits : x.absorbs (.scaled (v.num / v.den) 10 k) = true ∨
      x.absorbs (.scaled (v.num / v.den + 1) 10 k) = true := by
    simp only [absorbs_iff x (Ratio.den_scaled_pos _ (by decide : 0 < 10) _), toRat_scaled_ten]
    -- the nearer neighbour is at most half a step away
    obtain hnear | hnear := le_or_gt (2 * (x.toRat - Scientific.toRat ⟨v.num / v.den, k⟩)) (10 ^ k)
    · exact .inl (absorbs_of_between (by linarith) (by linarith))
    · exact .inr (absorbs_of_between (by linarith) (by linarith))
  simp only [onGrid?, ← hv]
  obtain h | h := hfits <;> simp only [h] <;> grind

/-- The search passes every grid until the first hit. -/
theorem absorbs_firstHit {x : Binary} {tie : Tie} {count i : ℕ} {k : ℤ} (hi : i < count)
    (h : (x.onGrid? tie (k - i)).isSome) : x.Absorbs (x.firstHit tie count k).toRat := by
  induction count generalizing i k with
  | zero => cases hi
  | succ count ih =>
      rw [firstHit]
      cases hk : x.onGrid? tie k with
      | some s => exact absorbs_of_onGrid? hk
      | none =>
          cases i with
          | zero => simp [hk] at h
          | succ i =>
              refine ih (Nat.lt_of_succ_lt_succ hi) ?_
              rwa [sub_sub, add_comm (1 : ℤ), ← Nat.cast_succ]

end Binary

/-! ### Trailing zeros -/

theorem Scientific.toRat_trim (fuel : ℕ) (s : Scientific) : (s.trim fuel).toRat = s.toRat := by
  induction fuel generalizing s with
  | zero => rfl
  | succ fuel ih =>
      rw [trim]
      split
      · next h =>
        rw [ih]
        have hd : (s.digits : ℚ) = (s.digits / 10 : ℕ) * 10 := by
          exact_mod_cast (Nat.div_mul_cancel (Nat.dvd_of_mod_eq_zero h.2)).symm
        rw [toRat, toRat, hd, zpow_add_one₀ (by norm_num)]
        ring
      · rfl

namespace Binary

/-! ### The shortest decimal -/

/-- The finite doubles other than zero: 53 bits, and the smaller gap only at a power of two. -/
structure Finite (x : Binary) : Prop where
  significand_pos : 0 < x.significand
  significand_lt : x.significand < 2 * fractionSize
  halved : x.lowerGapHalved = true → x.significand = fractionSize
  exponent_ge : -1074 ≤ x.exponent
  exponent_le : x.exponent ≤ 971

theorem finite_ofMagnitude {n : ℕ} (hpos : 0 < n) (hlt : n < infinityBits) :
    (ofMagnitude n).Finite := by
  have hinf : infinityBits = 2047 * fractionSize := rfl
  have hmod : n % fractionSize < fractionSize := Nat.mod_lt _ (by decide)
  have hdiv := Nat.div_add_mod n fractionSize
  rw [ofMagnitude]
  rw [fractionSize_eq] at *
  split
  · refine ⟨?_, ?_, by simp, le_rfl, by norm_num⟩ <;> simp only [fractionSize_eq] <;> omega
  · refine ⟨?_, ?_, fun hhalved => ?_, ?_, ?_⟩ <;> simp only [fractionSize_eq] <;> try omega
    have hzero := (of_decide_eq_true hhalved).1
    omega

theorem Finite.toRat_bounds {x : Binary} (hx : x.Finite) :
    (2 : ℚ) ^ (-1076 : ℤ) ≤ x.toRat ∧ x.toRat ≤ 2 ^ (1024 : ℤ) := by
  have hone : (1 : ℚ) ≤ x.significand := by exact_mod_cast hx.significand_pos
  have hmax : (x.significand : ℚ) ≤ 2 ^ (53 : ℤ) := by
    have := hx.significand_lt
    rw [fractionSize_eq] at this
    norm_num
    exact_mod_cast (by omega)
  have hmin := hx.exponent_ge
  constructor
  · calc (2 : ℚ) ^ (-1076 : ℤ) ≤ 1 * 2 ^ x.exponent := by
          rw [one_mul]
          exact zpow_le_zpow_right₀ (by norm_num) (by omega)
      _ ≤ x.toRat := by
          rw [toRat]
          gcongr
  · calc x.toRat ≤ 2 ^ (53 : ℤ) * 2 ^ (971 : ℤ) := by
          rw [toRat]
          gcongr
          · norm_num
          · exact hx.exponent_le
      _ = 2 ^ (1024 : ℤ) := by rw [← zpow_add₀ (by norm_num)]; rfl

/-- The leading power of ten. -/
theorem Finite.zpow_decimalPoint_le {x : Binary} (hx : x.Finite) :
    (10 : ℚ) ^ (x.value.decimalPoint - 1) ≤ x.toRat := by
  have hbounds := hx.toRat_bounds
  rw [← toRat_value] at hbounds ⊢
  refine Ratio.zpow_decimalPoint_le ?_ (Ratio.den_scaled_pos _ (by decide) _) hbounds.1 hbounds.2
  intro hzero
  have hpos : (0 : ℚ) < 2 ^ (-1076 : ℤ) := zpow_pos (by norm_num) _
  rw [Ratio.toRat, hzero, Nat.cast_zero, zero_div] at hbounds
  exact absurd hbounds.1 (not_le.2 hpos)

/-- Seventeen digits are enough. -/
theorem Finite.zpow_lt {x : Binary} (hx : x.Finite) :
    (10 : ℚ) ^ (x.value.decimalPoint - 1 - 16) < 2 * (x.toRat - x.lower.toRat) ∧
      (10 : ℚ) ^ (x.value.decimalPoint - 1 - 16) < 2 * (x.upper.toRat - x.toRat) := by
  have hlead := hx.zpow_decimalPoint_le
  have hq := x.quarter_pos
  have hmax : (x.significand : ℚ) < 2 * 4503599627370496 := by
    have := hx.significand_lt
    rw [fractionSize_eq] at this
    exact_mod_cast this
  have hstep : (10 : ℚ) ^ (x.value.decimalPoint - 1 - 16) * 10 ^ 16 =
      10 ^ (x.value.decimalPoint - 1) := by
    rw [← zpow_natCast, ← zpow_add₀ (by norm_num)]
    congr 1
    ring
  rw [← hstep, toRat_eq_quarter] at hlead
  have hsub : (((4 * x.significand - if x.lowerGapHalved then 1 else 2 : ℕ)) : ℚ) =
      4 * x.significand - if x.lowerGapHalved then 1 else 2 := by
    have hpos := hx.significand_pos
    rw [Nat.cast_sub (by split <;> omega)]
    push_cast
    rfl
  rw [toRat_eq_quarter, toRat_upper, toRat_lower, hsub]
  constructor
  · cases hhalved : x.lowerGapHalved with
    | true =>
        rw [hx.halved hhalved, fractionSize_eq] at hlead ⊢
        simp only [if_true]
        push_cast at hlead ⊢
        linarith
    | false =>
        have hsq := mul_lt_mul_of_pos_right hmax hq
        simp only [Bool.false_eq_true, if_false]
        linarith
  · have hsq := mul_lt_mul_of_pos_right hmax hq
    linarith

/-- The shortest decimal rounds to the double. -/
theorem Finite.absorbs_shortest {x : Binary} (hx : x.Finite) (tie : Tie) :
    x.Absorbs (x.shortest tie).toRat := by
  rw [shortest, Scientific.toRat_trim]
  exact absorbs_firstHit (i := 16) (by decide) (isSome_onGrid? tie hx.zpow_lt.1 hx.zpow_lt.2)

end Binary

end HvacModel.Decimal
