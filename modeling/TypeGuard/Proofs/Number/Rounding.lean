import Mathlib
import TypeGuard.Number.Binary64

/-! # Rounding

The binary64 number nearest to a ratio depends on the value of the ratio only. It is canonical, and
a canonical number is nearest to itself.
-/

namespace TypeGuard.Binary64

variable {num den : ℕ}

/-! ## Rounding to integers -/

theorem roundHalfEven_mul_right (num den : ℕ) {c : ℕ} (hc : 0 < c) :
    roundHalfEven (num * c) (den * c) = roundHalfEven num den := by
  have hlt : 2 * (num % den * c) < den * c ↔ 2 * (num % den) < den := by
    rw [← Nat.mul_assoc, Nat.mul_lt_mul_right hc]
  have heq : 2 * (num % den * c) = den * c ↔ 2 * (num % den) = den := by
    rw [← Nat.mul_assoc, Nat.mul_left_inj hc.ne']
  simp [roundHalfEven, Nat.mul_div_mul_right _ _ hc, Nat.mul_mod_mul_right, hlt, heq]

theorem roundHalfEven_mul_self (n : ℕ) (hd : 0 < den) : roundHalfEven (n * den) den = n := by
  simp [roundHalfEven, hd]

theorem roundHalfEven_le {m : ℕ} (hd : 0 < den) (h : num ≤ m * den) : roundHalfEven num den ≤ m := by
  have hq : num / den ≤ m := Nat.div_le_of_le_mul (by rwa [Nat.mul_comm])
  simp only [roundHalfEven]
  split
  · exact hq
  · next hup =>
    -- Rounding up leaves a remainder, so that the quotient is below the bound.
    have hr : num % den ≠ 0 := by
      intro hr
      simp [hr, hd] at hup
    rcases hq.lt_or_eq with hlt | heq
    · exact hlt
    · have := Nat.div_add_mod num den
      rw [heq, Nat.mul_comm] at this
      omega

theorem le_roundHalfEven {m : ℕ} (hd : 0 < den) (h : m * den ≤ num) : m ≤ roundHalfEven num den := by
  have hq : m ≤ num / den := (Nat.le_div_iff_mul_le hd).mpr h
  simp only [roundHalfEven]
  split
  · exact hq
  · exact hq.trans (Nat.le_succ _)

/-! ## Binary exponents -/

theorem two_zpow_mul (e : ℤ) : (2 : ℚ) ^ e * 2 ^ (-e).toNat = 2 ^ e.toNat := by
  rw [← zpow_natCast, ← zpow_natCast, ← zpow_add₀ (by norm_num)]
  congr 1
  omega

theorem scaled_le_iff (hd : 0 < den) (m : ℕ) (e : ℤ) :
    num * 2 ^ (-e).toNat ≤ m * (den * 2 ^ e.toNat) ↔ (num / den : ℚ) ≤ m * 2 ^ e := by
  have hd' : (0 : ℚ) < den := by exact_mod_cast hd
  have hp : (0 : ℚ) < 2 ^ (-e).toNat := by positivity
  have hm : (m * (den * 2 ^ e.toNat) : ℚ) = m * 2 ^ e * den * 2 ^ (-e).toNat := by
    rw [← two_zpow_mul]
    ring
  rw [div_le_iff₀ hd', ← mul_le_mul_iff_left₀ hp, ← hm]
  exact_mod_cast Iff.rfl

theorem le_scaled_iff (hd : 0 < den) (m : ℕ) (e : ℤ) :
    m * (den * 2 ^ e.toNat) ≤ num * 2 ^ (-e).toNat ↔ (m * 2 ^ e : ℚ) ≤ num / den := by
  have hd' : (0 : ℚ) < den := by exact_mod_cast hd
  have hp : (0 : ℚ) < 2 ^ (-e).toNat := by positivity
  have hm : (m * (den * 2 ^ e.toNat) : ℚ) = m * 2 ^ e * den * 2 ^ (-e).toNat := by
    rw [← two_zpow_mul]
    ring
  rw [le_div_iff₀ hd', ← mul_le_mul_iff_left₀ hp, ← hm]
  exact_mod_cast Iff.rfl

theorem log_eq_of_bounds {r : ℚ} {k : ℤ} (hl : 2 ^ k ≤ r) (hu : r < 2 ^ (k + 1)) :
    Int.log 2 r = k := by
  have hr : 0 < r := lt_of_lt_of_le (by positivity) hl
  have h₁ := (Int.zpow_le_iff_le_log one_lt_two hr).mp hl
  have h₂ := (Int.lt_zpow_iff_log_lt one_lt_two hr).mp hu
  omega

theorem floorLog2_eq_log (hn : 0 < num) (hd : 0 < den) :
    floorLog2 num den = Int.log 2 (num / den : ℚ) := by
  have hd' : (0 : ℚ) < den := by exact_mod_cast hd
  have hn' : (0 : ℚ) < num := by exact_mod_cast hn
  have hnum : (2 : ℚ) ^ num.log2 ≤ num ∧ (num : ℚ) < 2 ^ (num.log2 + 1) := by
    exact_mod_cast And.intro (Nat.log2_self_le hn.ne') Nat.lt_log2_self
  have hden : (2 : ℚ) ^ den.log2 ≤ den ∧ (den : ℚ) < 2 ^ (den.log2 + 1) := by
    exact_mod_cast And.intro (Nat.log2_self_le hd.ne') Nat.lt_log2_self
  set k : ℤ := (num.log2 : ℤ) - den.log2 with hk
  have hl : (2 : ℚ) ^ (k - 1) ≤ num / den := by
    rw [le_div_iff₀ hd']
    calc (2 : ℚ) ^ (k - 1) * den ≤ 2 ^ (k - 1) * 2 ^ (den.log2 + 1) := by gcongr; exact hden.2.le
      _ = 2 ^ num.log2 := by
        rw [← zpow_natCast, ← zpow_natCast, ← zpow_add₀ two_ne_zero]
        congr 1
        omega
      _ ≤ num := hnum.1
  have hu : (num / den : ℚ) < 2 ^ (k + 1) := by
    rw [div_lt_iff₀ hd']
    calc (num : ℚ) < 2 ^ (num.log2 + 1) := hnum.2
      _ = 2 ^ (k + 1) * 2 ^ den.log2 := by
        rw [← zpow_natCast, ← zpow_natCast, ← zpow_add₀ two_ne_zero]
        congr 1
        omega
      _ ≤ 2 ^ (k + 1) * den := by gcongr; exact hden.1
  have hle : 1 * (den * 2 ^ k.toNat) ≤ num * 2 ^ (-k).toNat ↔ ((1 : ℕ) * 2 ^ k : ℚ) ≤ num / den :=
    le_scaled_iff hd 1 k
  rw [Nat.one_mul, Nat.cast_one, one_mul] at hle
  simp only [floorLog2, ← hk, hle]
  split
  · next h => exact (log_eq_of_bounds h hu).symm
  · next h =>
    refine (log_eq_of_bounds hl ?_).symm
    rw [sub_add_cancel]
    exact not_le.mp h

/-! ## Rounding to binary64 -/

/-- The exponent of the numbers between which a ratio lies. -/
def unitExponent (num den : ℕ) : ℤ :=
  max (floorLog2 num den - 52) minExponent

def units (num den : ℕ) : ℕ :=
  roundHalfEven (num * 2 ^ (-unitExponent num den).toNat) (den * 2 ^ (unitExponent num den).toNat)

/-- A multiple of a unit, with the carry of a full significand. -/
def assemble (negative : Bool) (significand : ℕ) (exponent : ℤ) : Binary64 :=
  let (significand, exponent) :=
    if significand = 2 ^ 53 then (2 ^ 52, exponent + 1) else (significand, exponent)
  if maxExponent < exponent then infinity negative
  else finite negative significand exponent

theorem ofRatio_eq (negative : Bool) (hn : num ≠ 0) :
    ofRatio negative num den = assemble negative (units num den) (unitExponent num den) := by
  rw [ofRatio, if_neg hn]
  rfl

theorem ofRatio_mul_right (negative : Bool) (num : ℕ) (hd : 0 < den) {c : ℕ} (hc : 0 < c) :
    ofRatio negative (num * c) (den * c) = ofRatio negative num den := by
  rcases Nat.eq_zero_or_pos num with rfl | hn
  · simp [ofRatio]
  · have hlog : floorLog2 (num * c) (den * c) = floorLog2 num den := by
      rw [floorLog2_eq_log (Nat.mul_pos hn hc) (Nat.mul_pos hd hc), floorLog2_eq_log hn hd]
      push_cast
      rw [mul_div_mul_right _ _ (by exact_mod_cast hc.ne')]
    have hunits : units (num * c) (den * c) = units num den := by
      simp only [units, unitExponent, hlog]
      rw [Nat.mul_right_comm num, Nat.mul_right_comm den, roundHalfEven_mul_right _ _ hc]
    rw [ofRatio_eq _ (Nat.mul_pos hn hc).ne', ofRatio_eq _ hn.ne', hunits, unitExponent, hlog]
    rfl

/-- Rounding depends on the value of a ratio only. -/
theorem ofRatio_congr (negative : Bool) {num' den' : ℕ} (hd : 0 < den) (hd' : 0 < den')
    (h : num * den' = num' * den) : ofRatio negative num den = ofRatio negative num' den' := by
  calc ofRatio negative num den = ofRatio negative (num * den') (den * den') :=
        (ofRatio_mul_right _ _ hd hd').symm
    _ = ofRatio negative (num' * den) (den' * den) := by rw [h, Nat.mul_comm den]
    _ = ofRatio negative num' den' := ofRatio_mul_right _ _ hd' hd

theorem units_le (hn : 0 < num) (hd : 0 < den) : units num den ≤ 2 ^ 53 := by
  have hunit : (0 : ℚ) < 2 ^ unitExponent num den := by positivity
  refine roundHalfEven_le (by positivity) ((scaled_le_iff hd _ _).mpr ?_)
  have hlog := Int.lt_zpow_succ_log_self one_lt_two (num / den : ℚ)
  rw [← floorLog2_eq_log hn hd] at hlog
  calc (num / den : ℚ) ≤ 2 ^ (floorLog2 num den + 1) := by exact_mod_cast hlog.le
    _ ≤ 2 ^ (53 + unitExponent num den) := by
      refine zpow_le_zpow_right₀ one_le_two ?_
      unfold unitExponent
      omega
    _ = (2 ^ 53 : ℕ) * 2 ^ unitExponent num den := by
      rw [zpow_add₀ two_ne_zero]
      norm_num

theorem le_units (hn : 0 < num) (hd : 0 < den) (he : unitExponent num den ≠ minExponent) :
    2 ^ 52 ≤ units num den := by
  refine le_roundHalfEven (by positivity) ((le_scaled_iff hd _ _).mpr ?_)
  have hlog := Int.zpow_log_le_self (b := 2) (r := (num / den : ℚ)) one_lt_two (by positivity)
  rw [← floorLog2_eq_log hn hd] at hlog
  calc ((2 ^ 52 : ℕ) * 2 ^ unitExponent num den : ℚ) = 2 ^ (52 + unitExponent num den) := by
        rw [zpow_add₀ two_ne_zero]
        norm_num
    _ = 2 ^ floorLog2 num den := by
      congr 1
      unfold unitExponent at he ⊢
      omega
    _ ≤ num / den := by exact_mod_cast hlog

theorem isCanonical_assemble (negative : Bool) {significand : ℕ} {exponent : ℤ}
    (hs : significand ≤ 2 ^ 53) (he : minExponent ≤ exponent)
    (h : 2 ^ 52 ≤ significand ∨ exponent = minExponent) :
    (assemble negative significand exponent).IsCanonical := by
  unfold assemble
  by_cases hcarry : significand = 2 ^ 53
  · simp only [hcarry, if_true]
    split
    · trivial
    · next hmax => exact ⟨by norm_num, by omega, not_lt.mp hmax, .inl le_rfl⟩
  · simp only [hcarry, if_false]
    split
    · trivial
    · next hmax => exact ⟨by omega, he, not_lt.mp hmax, h⟩

theorem isCanonical_zero (negative : Bool) : (zero negative).IsCanonical :=
  ⟨by norm_num, le_rfl, by decide, .inr rfl⟩

theorem isCanonical_ofRatio (negative : Bool) (num : ℕ) (hd : 0 < den) :
    (ofRatio negative num den).IsCanonical := by
  rcases Nat.eq_zero_or_pos num with rfl | hn
  · rw [ofRatio, if_pos rfl]
    exact isCanonical_zero negative
  · rw [ofRatio_eq _ hn.ne']
    refine isCanonical_assemble negative (units_le hn hd) (le_max_right _ _) ?_
    by_cases he : unitExponent num den = minExponent
    · exact .inr he
    · exact .inl (le_units hn hd he)

theorem ratio_den_pos (significand : ℕ) (exponent : ℤ) : 0 < (ratio significand exponent).2 :=
  Nat.two_pow_pos _

theorem ratio_num_pos {significand : ℕ} (hs : 0 < significand) (exponent : ℤ) :
    0 < (ratio significand exponent).1 :=
  Nat.mul_pos hs (Nat.two_pow_pos _)

theorem ratio_value (significand : ℕ) (exponent : ℤ) :
    ((ratio significand exponent).1 / (ratio significand exponent).2 : ℚ) =
      significand * 2 ^ exponent := by
  have hp : (2 : ℚ) ^ (-exponent).toNat ≠ 0 := by positivity
  simp only [ratio, Nat.cast_mul, Nat.cast_pow, Nat.cast_ofNat]
  rw [div_eq_iff hp, mul_assoc, two_zpow_mul]

theorem unitExponent_ratio {significand : ℕ} {exponent : ℤ} (hs : 0 < significand)
    (h : (finite false significand exponent).IsCanonical) :
    unitExponent (ratio significand exponent).1 (ratio significand exponent).2 = exponent := by
  obtain ⟨hlt, hmin, -, hnormal⟩ := h
  have hpos : (0 : ℚ) < significand * 2 ^ exponent := by positivity
  have hunit : (0 : ℚ) < 2 ^ exponent := by positivity
  have hlog : floorLog2 (ratio significand exponent).1 (ratio significand exponent).2 =
      Int.log 2 (significand * 2 ^ exponent : ℚ) := by
    rw [floorLog2_eq_log (ratio_num_pos hs _) (ratio_den_pos _ _), ratio_value]
  have hupper : Int.log 2 (significand * 2 ^ exponent : ℚ) < 53 + exponent := by
    rw [← Int.lt_zpow_iff_log_lt one_lt_two hpos]
    calc (significand * 2 ^ exponent : ℚ) < 2 ^ 53 * 2 ^ exponent := by
          gcongr
          exact_mod_cast hlt
      _ = ((2 : ℕ) : ℚ) ^ (53 + exponent) := by
        rw [Nat.cast_ofNat, zpow_add₀ two_ne_zero]
        norm_num
  have hlower (hn : 2 ^ 52 ≤ significand) :
      52 + exponent ≤ Int.log 2 (significand * 2 ^ exponent : ℚ) := by
    rw [← Int.zpow_le_iff_le_log one_lt_two hpos]
    calc ((2 : ℕ) : ℚ) ^ (52 + exponent) = 2 ^ 52 * 2 ^ exponent := by
          rw [Nat.cast_ofNat, zpow_add₀ two_ne_zero]
          norm_num
      _ ≤ significand * 2 ^ exponent := by
        gcongr
        exact_mod_cast hn
  rw [unitExponent, hlog]
  rcases hnormal with hn | rfl
  · have := hlower hn
    omega
  · omega

/-- A canonical number is the one nearest to its own value. -/
theorem ofRatio_ratio {negative : Bool} {significand : ℕ} {exponent : ℤ}
    (h : (finite negative significand exponent).IsCanonical) :
    ofRatio negative (ratio significand exponent).1 (ratio significand exponent).2 =
      finite negative significand exponent := by
  have hlt := h.1
  have hmax := h.2.2.1
  rcases Nat.eq_zero_or_pos significand with rfl | hs
  · obtain rfl : exponent = minExponent := h.2.2.2.resolve_left (by norm_num)
    simp [ratio, ofRatio, zero]
  · have hunit := unitExponent_ratio hs h
    have hunits : units (ratio significand exponent).1 (ratio significand exponent).2 =
        significand := by
      rw [units, hunit, ratio]
      simp only
      rw [Nat.mul_assoc, Nat.mul_comm (2 ^ (-exponent).toNat)]
      exact roundHalfEven_mul_self significand (by positivity)
    rw [ofRatio_eq _ (ratio_num_pos hs _).ne', hunits, hunit, assemble]
    simp only [hlt.ne, if_false, not_lt.mpr hmax]

end TypeGuard.Binary64
