import TypeGuard.Proofs.Number.Writing

/-! # The range of binary64

A ratio is rounded to a finite number if and only if it lies below a bound half a unit beyond the
greatest finite number. A decimal is read as a finite number under the same condition on its value,
however many digits it has and however large its exponent is.
-/

namespace TypeGuard

namespace Binary64

variable {num den : ℕ}

def IsFinite : Binary64 → Prop
  | finite .. => True
  | _ => False

/-- The least magnitude that is rounded to infinity: the midpoint between the greatest finite number
and the power of two after it, which has the even significand of the two. -/
def overflow : ℚ :=
  (2 ^ 54 - 1) * 2 ^ 970

theorem two_pow_lt_overflow : (2 : ℚ) ^ 1023 < overflow := by
  rw [overflow, show 1023 = 53 + 970 from rfl, pow_add]
  gcongr
  norm_num

theorem overflow_lt_two_pow : overflow < (2 : ℚ) ^ 1024 := by
  rw [overflow, show 1024 = 54 + 970 from rfl, pow_add]
  gcongr
  norm_num

/-- A ratio is rounded beyond an odd integer from the midpoint to the next one on. -/
theorem lt_roundHalfEven_iff {m : ℕ} (hm : m % 2 = 1) (hd : 0 < den) :
    m < roundHalfEven num den ↔ (2 * m + 1) * den ≤ 2 * num := by
  have hnum : den * (num / den) + num % den = num := Nat.div_add_mod num den
  have hr : num % den < den := Nat.mod_lt num hd
  rcases lt_trichotomy m (num / den) with hlt | heq | hgt
  · have hle : (m + 1) * den ≤ num := (Nat.le_div_iff_mul_le hd).mp hlt
    have hround : num / den ≤ roundHalfEven num den := by
      refine le_roundHalfEven hd ?_
      rw [Nat.mul_comm]
      omega
    refine iff_of_true (hlt.trans_le hround) ?_
    linarith
  · -- A tie at an odd quotient goes up.
    rw [← heq] at hnum
    have hmid : (2 * m + 1) * den = 2 * (den * m) + den := by ring
    rw [roundHalfEven, ← heq, hm, hmid]
    simp only [Nat.reduceBEq, Bool.and_false, Bool.or_false, decide_eq_true_eq]
    split <;> omega
  · have hlt : num < m * den := (Nat.div_lt_iff_lt_mul hd).mp hgt
    refine iff_of_false (not_lt.mpr (roundHalfEven_le hd hlt.le)) ?_
    linarith

theorem isFinite_assemble_iff {negative : Bool} {significand : ℕ} {exponent : ℤ} :
    (assemble negative significand exponent).IsFinite ↔
      exponent < maxExponent ∨ exponent = maxExponent ∧ significand ≠ 2 ^ 53 := by
  unfold assemble
  by_cases hcarry : significand = 2 ^ 53
  · simp only [hcarry, if_true, ne_eq, not_true_eq_false, and_false, or_false]
    split
    · next h => exact iff_of_false id (by omega)
    · next h => exact iff_of_true trivial (by omega)
  · simp only [hcarry, if_false, ne_eq, not_false_eq_true, and_true]
    split
    · next h => exact iff_of_false id (by omega)
    · next h => exact iff_of_true trivial (by omega)

theorem isFinite_or_eq_infinity_assemble (negative : Bool) (significand : ℕ) (exponent : ℤ) :
    (assemble negative significand exponent).IsFinite ∨
      assemble negative significand exponent = infinity negative := by
  simp only [assemble]
  split_ifs
  · exact .inr rfl
  · exact .inl trivial
  · exact .inr rfl
  · exact .inl trivial

theorem isFinite_or_eq_infinity_ofRatio (negative : Bool) (num den : ℕ) :
    (ofRatio negative num den).IsFinite ∨ ofRatio negative num den = infinity negative := by
  by_cases hn : num = 0
  · rw [ofRatio, if_pos hn]
    exact .inl trivial
  · rw [ofRatio_eq _ hn]
    exact isFinite_or_eq_infinity_assemble _ _ _

theorem units_ne_full_iff (hn : 0 < num) (hd : 0 < den) (he : unitExponent num den = maxExponent) :
    units num den ≠ 2 ^ 53 ↔ (num / den : ℚ) < overflow := by
  have hd' : (0 : ℚ) < den := by exact_mod_cast hd
  have hfull : units num den ≠ 2 ^ 53 ↔ ¬ 2 ^ 53 - 1 < units num den := by
    have := units_le hn hd
    omega
  have hmid : (2 * (2 ^ 53 - 1) + 1) * (den * 2 ^ 971) ≤ 2 * num ↔ overflow * den ≤ num := by
    have hscale : (((2 * (2 ^ 53 - 1) + 1) * (den * 2 ^ 971) : ℕ) : ℚ) = 2 * (overflow * den) := by
      have hodd : ((2 * (2 ^ 53 - 1) + 1 : ℕ) : ℚ) = 2 ^ 54 - 1 := by norm_num
      rw [overflow, Nat.cast_mul, hodd, Nat.cast_mul, Nat.cast_pow, Nat.cast_two,
        show (2 : ℚ) ^ 971 = 2 * 2 ^ 970 from pow_succ' 2 970]
      generalize (2 : ℚ) ^ 970 = unit
      ring
    rw [← Nat.cast_le (α := ℚ), hscale, Nat.cast_mul, Nat.cast_two, mul_le_mul_iff_right₀ two_pos]
  have hnum : num * 2 ^ (-maxExponent).toNat = num := Nat.mul_one num
  have hunit : maxExponent.toNat = 971 := rfl
  rw [hfull, units, he, hnum, hunit, lt_roundHalfEven_iff (by norm_num) (by positivity),
    div_lt_iff₀ hd', ← not_le, ← hmid]

theorem isFinite_ofRatio_iff {negative : Bool} (hd : 0 < den) :
    (ofRatio negative num den).IsFinite ↔ (num / den : ℚ) < overflow := by
  rcases Nat.eq_zero_or_pos num with rfl | hn
  · rw [ofRatio, if_pos rfl]
    exact iff_of_true trivial (by norm_num [overflow])
  · have hlog : floorLog2 num den = Int.log 2 (num / den : ℚ) := floorLog2_eq_log hn hd
    have hpos : (0 : ℚ) < num / den := by positivity
    have hunit : unitExponent num den = max (Int.log 2 (num / den : ℚ) - 52) minExponent := by
      rw [unitExponent, hlog]
    rw [ofRatio_eq _ hn.ne', isFinite_assemble_iff]
    unfold minExponent at hunit
    rcases lt_trichotomy (Int.log 2 (num / den : ℚ)) 1023 with hlt | heq | hgt
    · refine iff_of_true (.inl ?_) ?_
      · unfold maxExponent
        omega
      · calc (num / den : ℚ) < (2 : ℕ) ^ (1023 : ℤ) :=
              (Int.lt_zpow_iff_log_lt one_lt_two hpos).mpr hlt
          _ < overflow := by exact_mod_cast two_pow_lt_overflow
    · have he : unitExponent num den = maxExponent := by
        unfold maxExponent
        omega
      rw [← units_ne_full_iff hn hd he]
      simp [he]
    · refine iff_of_false ?_ (not_lt.mpr ?_)
      · unfold maxExponent
        omega
      · calc overflow ≤ (2 : ℕ) ^ (1024 : ℤ) := by exact_mod_cast overflow_lt_two_pow.le
          _ ≤ num / den := (Int.zpow_le_iff_le_log one_lt_two hpos).mpr hgt

end Binary64

namespace Decimal

open Binary64

def value (d : Decimal) : ℚ :=
  d.digits * 10 ^ d.exponent

theorem value_eq_ratio (d : Decimal) :
    d.value = ((d.digits * 10 ^ d.exponent.toNat : ℕ) : ℚ) / ((10 ^ (-d.exponent).toNat : ℕ) : ℚ) := by
  have hp : (0 : ℚ) < 10 ^ (-d.exponent).toNat := by positivity
  push_cast
  rw [value, eq_div_iff hp.ne', mul_assoc, ← zpow_natCast, ← zpow_natCast,
    ← zpow_add₀ (by norm_num)]
  congr 2
  omega

theorem value_lt (d : Decimal) :
    d.value < 10 ^ ((digitChars d.digits).length + d.exponent) := by
  have hlen : 0 < (digitChars d.digits).length := Nat.length_toDigits_pos
  have hlt : d.digits < 10 ^ (digitChars d.digits).length :=
    (length_digitChars_le_iff hlen).mp le_rfl
  rw [zpow_add₀ (by norm_num), value, zpow_natCast]
  gcongr
  exact_mod_cast hlt

theorem le_value {d : Decimal} (hd : d.digits ≠ 0) :
    10 ^ ((digitChars d.digits).length + d.exponent - 1) ≤ d.value := by
  obtain ⟨k, hk⟩ : ∃ k, (digitChars d.digits).length = k + 1 :=
    Nat.exists_eq_add_one.mpr Nat.length_toDigits_pos
  have hle : 10 ^ k ≤ d.digits := by
    rcases Nat.eq_zero_or_pos k with rfl | hpos
    · exact Nat.one_le_iff_ne_zero.mpr hd
    · rw [← not_lt, ← length_digitChars_le_iff hpos]
      omega
  have hsize : ((digitChars d.digits).length + d.exponent - 1 : ℤ) = k + d.exponent := by omega
  rw [hsize, zpow_add₀ (by norm_num), value, zpow_natCast]
  gcongr
  exact_mod_cast hle

/-- A decimal is read as a finite number if and only if its value is below the bound. -/
theorem isFinite_toBinary64_iff {negative : Bool} {d : Decimal} :
    (d.toBinary64 negative).IsFinite ↔ d.value < overflow := by
  by_cases hd : d.digits = 0
  · have hvalue : d.value = 0 := by simp [value, hd]
    have hzero : d.toBinary64 negative = zero negative := by simp [toBinary64, hd]
    rw [hvalue, hzero]
    exact iff_of_true trivial (by norm_num [overflow])
  rcases lt_or_ge ((digitChars d.digits).length + d.exponent : ℤ) (-330) with hsmall | hl
  · have hzero : d.toBinary64 negative = zero negative := by simp [toBinary64, hsmall]
    rw [hzero]
    refine iff_of_true trivial ?_
    calc d.value < 10 ^ ((digitChars d.digits).length + d.exponent) := d.value_lt
      _ ≤ 10 ^ (0 : ℤ) := zpow_le_zpow_right₀ (by norm_num) (by omega)
      _ ≤ 2 ^ 1023 := one_le_pow₀ one_le_two
      _ < overflow := two_pow_lt_overflow
  rcases lt_or_ge 330 ((digitChars d.digits).length + d.exponent : ℤ) with hlarge | hu
  · have hinfinity : d.toBinary64 negative = infinity negative := by
      simp [toBinary64, hd, hlarge, not_lt.mpr hl]
    rw [hinfinity]
    refine iff_of_false id (not_lt.mpr ?_)
    calc overflow ≤ 2 ^ 1024 := overflow_lt_two_pow.le
      _ ≤ 10 ^ (330 : ℤ) := by exact_mod_cast (by decide +kernel : 2 ^ 1024 ≤ 10 ^ 330)
      _ ≤ 10 ^ ((digitChars d.digits).length + d.exponent - 1) :=
        zpow_le_zpow_right₀ (by norm_num) (by omega)
      _ ≤ d.value := le_value hd
  · rw [toBinary64_of_size hd hl hu, isFinite_ofRatio_iff (by positivity), value_eq_ratio]

theorem toBinary64_eq_infinity_iff {negative : Bool} {d : Decimal} :
    d.toBinary64 negative = infinity negative ↔ overflow ≤ d.value := by
  have hcases : (d.toBinary64 negative).IsFinite ∨ d.toBinary64 negative = infinity negative := by
    simp only [toBinary64]
    split_ifs
    · exact .inl trivial
    · exact .inr rfl
    · exact isFinite_or_eq_infinity_ofRatio _ _ _
  rw [← not_lt, ← isFinite_toBinary64_iff]
  constructor
  · intro h
    rw [h]
    exact id
  · exact hcases.resolve_left

end Decimal

end TypeGuard
