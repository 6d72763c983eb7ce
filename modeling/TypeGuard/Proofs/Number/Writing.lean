import TypeGuard.Number.Decimal
import TypeGuard.Proofs.Number.Rounding
import TypeGuard.Proofs.Number.Spelling

/-! # Writing numbers

An integer is spelled as it is written, and so is a finite number: with a point or an exponent, and
with digits that are read back as the number.
-/

namespace TypeGuard

/-! ## Digits -/

theorem natOfDigits_append (as bs : List Char) :
    natOfDigits (as ++ bs) = 10 ^ bs.length * natOfDigits as + natOfDigits bs := by
  calc natOfDigits (as ++ bs) = Nat.ofDigitChars 10 bs (natOfDigits as) :=
        Nat.ofDigitChars_append 0
    _ = 10 ^ bs.length * natOfDigits as + natOfDigits bs := Nat.ofDigitChars_eq_ofDigitChars_zero

theorem natOfDigits_replicate_zero (k : ℕ) : natOfDigits (List.replicate k '0') = 0 := by
  calc natOfDigits (List.replicate k '0') = 10 ^ k * 0 := Nat.ofDigitChars_replicate_zero
    _ = 0 := Nat.mul_zero _

theorem natOfDigits_zero_cons (ds : List Char) : natOfDigits ('0' :: ds) = natOfDigits ds :=
  rfl

theorem natOfDigits_append_zeros (ds : List Char) (k : ℕ) :
    natOfDigits (ds ++ List.replicate k '0') = natOfDigits ds * 10 ^ k := by
  rw [natOfDigits_append, natOfDigits_replicate_zero, List.length_replicate, Nat.add_zero,
    Nat.mul_comm]

theorem natOfDigits_zeros_append (k : ℕ) (ds : List Char) :
    natOfDigits (List.replicate k '0' ++ ds) = natOfDigits ds := by
  rw [natOfDigits_append, natOfDigits_replicate_zero, Nat.mul_zero, Nat.zero_add]

theorem natOfDigits_digitChars (n : ℕ) : natOfDigits (digitChars n) = n :=
  Nat.ofDigitChars_ten_toDigits

theorem isDigit_digitChars (n : ℕ) : ∀ c ∈ digitChars n, c.isDigit = true := fun _ hc =>
  Nat.isDigit_of_mem_toDigits (by norm_num) le_rfl hc

theorem digitChars_of_ten_le {n : ℕ} (h : 10 ≤ n) :
    digitChars n = digitChars (n / 10) ++ [Nat.digitChar (n % 10)] :=
  Nat.toDigits_of_base_le (by norm_num) h

theorem digitChars_eq_cons {n : ℕ} (hn : 0 < n) : ∃ d ds, digitChars n = d :: ds ∧ d ≠ '0' := by
  induction n using Nat.strong_induction_on with
  | _ n ih =>
    by_cases h : 10 ≤ n
    · obtain ⟨d, ds, hd, hne⟩ := ih (n / 10) (by omega) (by omega)
      exact ⟨d, ds ++ [Nat.digitChar (n % 10)], by rw [digitChars_of_ten_le h, hd]; rfl, hne⟩
    · refine ⟨Nat.digitChar n, [], Nat.toDigits_of_lt_base (not_le.mp h), ?_⟩
      have hlt : n < 10 := not_le.mp h
      interval_cases n <;> decide

theorem length_digitChars_mul {n : ℕ} (hn : 0 < n) (k : ℕ) :
    (digitChars (n * 10 ^ k)).length = (digitChars n).length + k := by
  induction k with
  | zero => simp
  | succ k ih =>
    have hpos : 0 < n * 10 ^ k := Nat.mul_pos hn (by positivity)
    rw [pow_succ, ← Nat.mul_assoc, digitChars_of_ten_le (by omega), Nat.mul_div_cancel _ (by norm_num),
      List.length_append, ih]
    rfl

theorem length_digitChars_le_iff {n k : ℕ} (hk : 0 < k) :
    (digitChars n).length ≤ k ↔ n < 10 ^ k :=
  Nat.length_toDigits_le_iff (by norm_num) hk

namespace Numeral

theorem whole_digitChars (n : ℕ) : Whole (digitChars n) := by
  rcases Nat.eq_zero_or_pos n with rfl | hn
  · exact .zero
  · obtain ⟨d, ds, hd, hne⟩ := digitChars_eq_cons hn
    have hall := isDigit_digitChars n
    rw [hd] at hall ⊢
    exact .positive hne hall

/-- What is written for an integer is a numeral that denotes it. -/
theorem exists_spelling_int (i : ℤ) :
    ∃ n : Numeral, n.Spelling (intChars i) ∧ n.literal = .int i := by
  have hspelling (negative : Bool) :
      Spelling ⟨negative, digitChars i.natAbs, [], none⟩
        (minusSign negative ++ (digitChars i.natAbs ++ ([] ++ []))) :=
    .mk (whole_digitChars _) .absent .absent
  have hliteral (negative : Bool) : literal ⟨negative, digitChars i.natAbs, [], none⟩ =
      .int (if negative then -(i.natAbs : ℤ) else i.natAbs) := by
    simp [literal, isInteger, toInt, natOfDigits_digitChars]
  by_cases hi : i < 0
  · refine ⟨_, ?_, (hliteral true).trans ?_⟩
    · simpa [intChars, hi, minusSign] using hspelling true
    · simp only [if_true, Literal.int.injEq]
      omega
  · refine ⟨_, ?_, (hliteral false).trans ?_⟩
    · simpa [intChars, hi, minusSign] using hspelling false
    · simp only [Bool.false_eq_true, if_false, Literal.int.injEq]
      omega

end Numeral

/-! ## Reading decimals -/

namespace Decimal

theorem toBinary64_shift (negative : Bool) (n : ℕ) (e : ℤ) (k : ℕ) :
    toBinary64 negative ⟨n * 10 ^ k, e - k⟩ = toBinary64 negative ⟨n, e⟩ := by
  rcases Nat.eq_zero_or_pos n with rfl | hn
  · simp [toBinary64]
  · have hne : n * 10 ^ k ≠ 0 := by positivity
    have hsize : ((digitChars (n * 10 ^ k)).length : ℤ) + (e - k) = (digitChars n).length + e := by
      rw [length_digitChars_mul hn]
      push_cast
      ring
    have hratio : Binary64.ofRatio negative (n * 10 ^ k * 10 ^ (e - k).toNat)
        (10 ^ (-(e - k)).toNat) =
          Binary64.ofRatio negative (n * 10 ^ e.toNat) (10 ^ (-e).toNat) := by
      refine Binary64.ofRatio_congr _ (by positivity) (by positivity) ?_
      rw [Nat.mul_assoc, Nat.mul_assoc, Nat.mul_assoc, ← pow_add, ← pow_add, ← pow_add]
      congr 2
      omega
    simp only [toBinary64, hsize, hne, hn.ne', hratio]

theorem isCanonical_toBinary64 (negative : Bool) (d : Decimal) :
    (d.toBinary64 negative).IsCanonical := by
  simp only [toBinary64]
  split_ifs
  · exact Binary64.isCanonical_zero negative
  · trivial
  · exact Binary64.isCanonical_ofRatio _ _ (by positivity)

theorem toBinary64_of_size {negative : Bool} {d : Decimal} (hd : d.digits ≠ 0)
    (hl : -330 ≤ ((digitChars d.digits).length : ℤ) + d.exponent)
    (hu : ((digitChars d.digits).length : ℤ) + d.exponent ≤ 330) :
    d.toBinary64 negative =
      .ofRatio negative (d.digits * 10 ^ d.exponent.toNat) (10 ^ (-d.exponent).toNat) := by
  simp [toBinary64, hd, not_lt.mpr hl, not_lt.mpr hu]

end Decimal

namespace Binary64

def withSign (negative : Bool) : Binary64 → Binary64
  | nan => nan
  | infinity _ => infinity negative
  | finite _ significand exponent => finite negative significand exponent

theorem withSign_assemble (negative : Bool) (significand : ℕ) (exponent : ℤ) :
    (assemble false significand exponent).withSign negative =
      assemble negative significand exponent := by
  unfold assemble
  simp only
  split_ifs <;> rfl

theorem withSign_ofRatio (negative : Bool) (num den : ℕ) :
    (ofRatio false num den).withSign negative = ofRatio negative num den := by
  by_cases hn : num = 0
  · simp [ofRatio, hn, zero, withSign]
  · rw [ofRatio_eq _ hn, ofRatio_eq _ hn, withSign_assemble]

theorem withSign_toBinary64 (negative : Bool) (d : Decimal) :
    (d.toBinary64 false).withSign negative = d.toBinary64 negative := by
  simp only [Decimal.toBinary64]
  split_ifs
  · rfl
  · rfl
  · exact withSign_ofRatio _ _ _

/-! ## Decimals that are read back -/

theorem exactDecimal_value (significand : ℕ) (exponent : ℤ) :
    let d := exactDecimal significand exponent
    (d.digits * 10 ^ d.exponent.toNat) * (ratio significand exponent).2 =
      (ratio significand exponent).1 * 10 ^ (-d.exponent).toNat := by
  by_cases he : 0 ≤ exponent
  · have hneg : (-exponent).toNat = 0 := by omega
    simp [exactDecimal, he, ratio, hneg]
  · have hpos : exponent.toNat = 0 := by omega
    have hten : (10 : ℕ) ^ (-exponent).toNat = 5 ^ (-exponent).toNat * 2 ^ (-exponent).toNat := by
      rw [← mul_pow]
      rfl
    simp only [exactDecimal, he, if_false, ratio, hpos, pow_zero, Nat.mul_one, hten]
    ring

theorem exactDecimal_digits_pos {significand : ℕ} (hs : 0 < significand) (exponent : ℤ) :
    0 < (exactDecimal significand exponent).digits := by
  unfold exactDecimal
  split
  · exact Nat.mul_pos hs (by positivity)
  · exact Nat.mul_pos hs (by positivity)

theorem exactDecimal_size_le {significand : ℕ} {exponent : ℤ} (hs : significand < 2 ^ 53)
    (he : exponent ≤ maxExponent) :
    ((digitChars (exactDecimal significand exponent).digits).length : ℤ) +
      (exactDecimal significand exponent).exponent ≤ 330 := by
  unfold maxExponent at he
  by_cases hsign : 0 ≤ exponent
  · have hlt : significand * 2 ^ exponent.toNat < 10 ^ 330 := by
      calc significand * 2 ^ exponent.toNat ≤ 2 ^ 53 * 2 ^ 971 := by
            gcongr
            · norm_num
            · omega
        _ < 10 ^ 330 := by decide +kernel
    have hlen := (length_digitChars_le_iff (by norm_num)).mpr hlt
    simp only [exactDecimal, hsign, if_true]
    omega
  · have hlt : significand * 5 ^ (-exponent).toNat < 10 ^ (16 + (-exponent).toNat) := by
      calc significand * 5 ^ (-exponent).toNat < 10 ^ 16 * 5 ^ (-exponent).toNat := by
            gcongr
            exact hs.trans (by norm_num)
        _ ≤ 10 ^ 16 * 10 ^ (-exponent).toNat := by
          gcongr
          norm_num
        _ = 10 ^ (16 + (-exponent).toNat) := (pow_add _ _ _).symm
    have hlen := (length_digitChars_le_iff (by omega)).mpr hlt
    simp only [exactDecimal, hsign, if_false]
    omega

theorem le_exactDecimal_size {significand : ℕ} {exponent : ℤ} (hs : 0 < significand)
    (he : minExponent ≤ exponent) :
    -330 ≤ ((digitChars (exactDecimal significand exponent).digits).length : ℤ) +
      (exactDecimal significand exponent).exponent := by
  unfold minExponent at he
  by_cases hsign : 0 ≤ exponent
  · simp only [exactDecimal, hsign, if_true]
    omega
  · simp only [exactDecimal, hsign, if_false]
    by_contra hlt
    obtain ⟨k, m, hk, hm, hkm⟩ : ∃ k m : ℕ, (-exponent).toNat = k ∧ m ≤ 743 ∧ k = m + 331 :=
      ⟨(-exponent).toNat, (-exponent).toNat - 331, rfl, by omega, by omega⟩
    rw [hk] at hlt
    have hpos : 0 < (digitChars (significand * 5 ^ k)).length := Nat.length_toDigits_pos
    have hsmall : significand * 5 ^ k < 10 ^ m :=
      (length_digitChars_le_iff (by omega)).mp (by omega)
    have hlarge : 10 ^ m ≤ significand * 5 ^ k := by
      have htwo : 2 ^ m ≤ 5 ^ 331 := by
        calc 2 ^ m ≤ 2 ^ 743 := Nat.pow_le_pow_right (by norm_num) hm
          _ ≤ 5 ^ 331 := by decide +kernel
      calc 10 ^ m = 2 ^ m * 5 ^ m := by
            rw [← mul_pow]
            rfl
        _ ≤ 5 ^ 331 * 5 ^ m := Nat.mul_le_mul_right _ htwo
        _ = 5 ^ k := by rw [hkm, pow_add, Nat.mul_comm]
        _ ≤ significand * 5 ^ k := Nat.le_mul_of_pos_left _ hs
    omega

theorem exactDecimal_reads {significand : ℕ} {exponent : ℤ} (hs : 0 < significand)
    (h : (finite false significand exponent).IsCanonical) :
    (exactDecimal significand exponent).toBinary64 false = finite false significand exponent := by
  rw [Decimal.toBinary64_of_size (exactDecimal_digits_pos hs exponent).ne'
    (le_exactDecimal_size hs h.2.1) (exactDecimal_size_le h.1 h.2.2.1), ← ofRatio_ratio h]
  exact ofRatio_congr _ (by positivity) (ratio_den_pos _ _) (exactDecimal_value _ _)

theorem nearestReading_reads {x : Binary64} {num den q : ℕ} {unit : ℤ} {d : Decimal}
    (h : nearestReading x num den q unit = some d) : d.toBinary64 false = x := by
  simp only [nearestReading] at h
  generalize (if roundHalfEven num den = q then q + 1 else q) = other at h
  split_ifs at h with hnearest hother
  · obtain rfl := Option.some.inj h
    exact beq_iff_eq.mp hnearest
  · obtain rfl := Option.some.inj h
    exact beq_iff_eq.mp hother

theorem decimalOfLength_reads {significand : ℕ} {exponent : ℤ} {length : ℕ} {d : Decimal}
    (h : decimalOfLength significand exponent length = some d) :
    d.toBinary64 false = finite false significand exponent :=
  nearestReading_reads h

/-- The digits that are written for a number are read back as the number. -/
theorem shortestDecimal_reads {negative : Bool} {significand : ℕ} {exponent : ℤ}
    (h : (finite negative significand exponent).IsCanonical) :
    (shortestDecimal significand exponent).toBinary64 negative =
      finite negative significand exponent := by
  have hreads : (shortestDecimal significand exponent).toBinary64 false =
      finite false significand exponent := by
    by_cases hs : significand = 0
    · subst hs
      obtain rfl : exponent = minExponent := h.2.2.2.resolve_left (by norm_num)
      rfl
    · rw [shortestDecimal, if_neg hs]
      cases hfind : (List.range' 1 17).findSome? (decimalOfLength significand exponent) with
      | some d =>
        obtain ⟨length, -, hd⟩ := List.exists_of_findSome?_eq_some hfind
        exact decimalOfLength_reads hd
      | none => exact exactDecimal_reads (Nat.pos_of_ne_zero hs) h
  rw [← withSign_toBinary64, hreads]
  rfl

end Binary64

/-! ## Layout -/

namespace Numeral

/-- The text of an unsigned numeral with a fraction or an exponent whose magnitude is the decimal,
up to zeros at the end of the digits. -/
def Writes (d : Decimal) (w : List Char) : Prop :=
  ∃ whole fraction exponent f e, Whole whole ∧ Fraction fraction f ∧ Exponent exponent e ∧
    (fraction ≠ [] ∨ exponent ≠ none) ∧ w = whole ++ (f ++ e) ∧
    ∃ k : ℕ, natOfDigits (whole ++ fraction) = d.digits * 10 ^ k ∧
      exponent.getD 0 - fraction.length = d.exponent - k

theorem Writes.exists_spelling {d : Decimal} {w : List Char} (h : Writes d w) (negative : Bool) :
    ∃ n : Numeral, n.Spelling (minusSign negative ++ w) ∧
      n.literal = .float (d.toBinary64 negative) := by
  obtain ⟨whole, fraction, exponent, f, e, hw, hf, he, hne, rfl, k, hdigits, hexp⟩ := h
  refine ⟨⟨negative, whole, fraction, exponent⟩, .mk hw hf he, ?_⟩
  have hint : isInteger ⟨negative, whole, fraction, exponent⟩ = false := by
    rcases hne with hne | hne
    · simp [isInteger, hne]
    · cases exponent <;> simp [isInteger] at hne ⊢
  have hvalue : toBinary64 ⟨negative, whole, fraction, exponent⟩ = d.toBinary64 negative := by
    simp only [toBinary64, decimal, hdigits, hexp]
    exact Decimal.toBinary64_shift negative d.digits d.exponent k
  simp [literal, hint, hvalue]

theorem isDigits_append_zeros {ds : List Char} (h : IsDigits ds) (k : ℕ) :
    IsDigits (ds ++ List.replicate k '0') := by
  refine ⟨by simp [h.1], fun c hc => ?_⟩
  rcases List.mem_append.mp hc with hc | hc
  · exact h.2 c hc
  · rw [List.eq_of_mem_replicate hc]
    decide

theorem exponent_exponentChars (e : ℤ) : Exponent (some e) ('e' :: Binary64.exponentChars e) := by
  have hdigits : IsDigits (digitChars e.natAbs) :=
    ⟨Nat.toDigits_ne_nil, isDigit_digitChars _⟩
  have hpadded : ∃ ds, IsDigits ds ∧ natOfDigits ds = e.natAbs ∧
      Binary64.exponentChars e = (if e < 0 then '-' else '+') :: ds := by
    by_cases hlen : (digitChars e.natAbs).length < 2
    · refine ⟨'0' :: digitChars e.natAbs, ⟨by simp, ?_⟩, ?_, by simp [Binary64.exponentChars, hlen]⟩
      · exact List.forall_mem_cons.mpr ⟨by decide, hdigits.2⟩
      · rw [natOfDigits_zero_cons, natOfDigits_digitChars]
    · exact ⟨_, hdigits, natOfDigits_digitChars _, by simp [Binary64.exponentChars, hlen]⟩
  obtain ⟨ds, hds, hvalue, hchars⟩ := hpadded
  rw [hchars]
  by_cases he : e < 0
  · have h : Exponent _ ('e' :: (['-'] ++ ds)) := .written (.inl rfl) .minus hds
    have heq : -(natOfDigits ds : ℤ) = e := by omega
    simpa [he, heq] using h
  · have h : Exponent _ ('e' :: (['+'] ++ ds)) := .written (.inl rfl) .plus hds
    have heq : (natOfDigits ds : ℤ) = e := by omega
    simpa [he, heq] using h

end Numeral

namespace Binary64

open Numeral

variable {d : Char} {ds : List Char}

theorem layOut_exponent_writes (hd : d ≠ '0') (hall : ∀ c ∈ d :: ds, c.isDigit = true)
    (magnitude : ℤ) :
    Writes ⟨natOfDigits (d :: ds), magnitude - ds.length⟩
      ((d :: (if ds.isEmpty then [] else '.' :: ds)) ++ 'e' :: exponentChars magnitude) := by
  obtain ⟨hdigit, hds⟩ := List.forall_mem_cons.mp hall
  have hfraction : Fraction ds (if ds.isEmpty then [] else '.' :: ds) := by
    cases ds with
    | nil => exact .absent
    | cons c cs => exact .point ⟨List.cons_ne_nil _ _, hds⟩
  have hwhole : Whole [d] := .positive hd (by simpa using hdigit)
  refine ⟨_, _, _, _, _, hwhole, hfraction, exponent_exponentChars magnitude, .inr (by simp),
    rfl, 0, ?_, by simp⟩
  rw [pow_zero, Nat.mul_one]
  rfl

theorem layOut_small_writes (hall : ∀ c ∈ d :: ds, c.isDigit = true) {magnitude : ℤ}
    (hm : magnitude < 0) :
    Writes ⟨natOfDigits (d :: ds), magnitude - ds.length⟩
      ('0' :: '.' :: (List.replicate (-magnitude - 1).toNat '0' ++ d :: ds)) := by
  have hfraction : IsDigits (List.replicate (-magnitude - 1).toNat '0' ++ d :: ds) := by
    refine ⟨by simp, fun c hc => ?_⟩
    rcases List.mem_append.mp hc with hc | hc
    · rw [List.eq_of_mem_replicate hc]
      decide
    · exact hall c hc
  refine ⟨_, _, _, _, _, .zero, .point hfraction, .absent, .inl hfraction.1, by simp, 0, ?_, ?_⟩
  · rw [List.singleton_append, natOfDigits_zero_cons, natOfDigits_zeros_append, pow_zero,
      Nat.mul_one]
  · simp only [Option.getD_none, List.length_append, List.length_replicate, List.length_cons]
    omega

theorem layOut_large_writes (hd : d ≠ '0') (hall : ∀ c ∈ d :: ds, c.isDigit = true)
    {magnitude : ℤ} (hm : 0 ≤ magnitude) :
    Writes ⟨natOfDigits (d :: ds), magnitude - ds.length⟩
      ((d :: ds).take (magnitude.toNat + 1) ++
        List.replicate (magnitude.toNat + 1 - (d :: ds).length) '0' ++
          '.' :: (if ((d :: ds).drop (magnitude.toNat + 1)).isEmpty then ['0']
            else (d :: ds).drop (magnitude.toNat + 1))) := by
  by_cases hlen : (d :: ds).length ≤ magnitude.toNat + 1
  · have hwhole : Whole (d :: ds ++ List.replicate (magnitude.toNat + 1 - (d :: ds).length) '0') :=
      .positive hd (isDigits_append_zeros ⟨List.cons_ne_nil _ _, hall⟩ _).2
    have hfraction : Fraction ['0'] ['.', '0'] := .point ⟨by simp, by simp⟩
    refine ⟨_, _, _, _, _, hwhole, hfraction, .absent, .inl (by simp), ?_,
      magnitude.toNat + 1 - (d :: ds).length + 1, ?_, ?_⟩
    · rw [List.take_of_length_le hlen, List.drop_of_length_le hlen]
      simp
    · rw [List.append_assoc, ← List.replicate_succ', natOfDigits_append_zeros]
    · simp only [Option.getD_none, List.length_cons, List.length_nil] at hlen ⊢
      omega
  · have htake : Whole ((d :: ds).take (magnitude.toNat + 1)) := by
      rw [List.take_succ_cons]
      refine .positive hd fun c hc => hall c ?_
      exact List.mem_of_mem_take (i := magnitude.toNat + 1) (by rwa [List.take_succ_cons])
    have hne : (d :: ds).drop (magnitude.toNat + 1) ≠ [] := by
      rw [Ne, List.drop_eq_nil_iff]
      exact hlen
    have hdrop : IsDigits ((d :: ds).drop (magnitude.toNat + 1)) :=
      ⟨hne, fun c hc => hall c (List.mem_of_mem_drop hc)⟩
    have hzeros : magnitude.toNat + 1 - (d :: ds).length = 0 := by omega
    refine ⟨_, _, _, _, _, htake, .point hdrop, .absent, .inl hne, ?_, 0, ?_, ?_⟩
    · rw [hzeros, if_neg (by simpa using hne)]
      simp
    · rw [List.take_append_drop, pow_zero, Nat.mul_one]
    · simp only [Option.getD_none, List.length_drop, List.length_cons] at hlen ⊢
      omega

theorem layOut_writes (hd : d ≠ '0') (hall : ∀ c ∈ d :: ds, c.isDigit = true) (magnitude : ℤ) :
    Writes ⟨natOfDigits (d :: ds), magnitude - ds.length⟩ (layOut (d :: ds) magnitude) := by
  unfold layOut
  split
  · exact layOut_exponent_writes hd hall magnitude
  · split
    · next hm => exact layOut_small_writes hall hm
    · next hm => exact layOut_large_writes hd hall (not_lt.mp hm)

theorem trimZeros_append_zeros (cs : List Char) :
    trimZeros cs ++ List.replicate (cs.reverse.takeWhile (· = '0')).length '0' = cs := by
  have hzeros : (cs.reverse.takeWhile (· = '0')).reverse =
      List.replicate (cs.reverse.takeWhile (· = '0')).length '0' := by
    refine List.eq_replicate_iff.mpr ⟨List.length_reverse, fun c hc => ?_⟩
    simpa using List.mem_takeWhile_imp (List.mem_reverse.mp hc)
  rw [trimZeros, ← hzeros, ← List.reverse_append, List.takeWhile_append_dropWhile,
    List.reverse_reverse]

theorem exists_trimZeros {n : ℕ} (hn : 0 < n) :
    ∃ d ds k, trimZeros (digitChars n) = d :: ds ∧ d ≠ '0' ∧
      (∀ c ∈ d :: ds, c.isDigit = true) ∧ n = natOfDigits (d :: ds) * 10 ^ k ∧
      (digitChars n).length = ds.length + 1 + k := by
  obtain ⟨d, _, hdigits, hne⟩ := digitChars_eq_cons hn
  obtain ⟨k, htrim⟩ : ∃ k, trimZeros (digitChars n) ++ List.replicate k '0' = digitChars n :=
    ⟨_, trimZeros_append_zeros _⟩
  cases ht : trimZeros (digitChars n) with
  | nil =>
    rw [ht, hdigits, List.nil_append] at htrim
    exact absurd (List.eq_of_mem_replicate (htrim ▸ List.mem_cons_self)) hne
  | cons c ds =>
    rw [ht] at htrim
    obtain rfl : c = d := (List.cons.inj (htrim.trans hdigits)).1
    refine ⟨c, ds, k, rfl, hne, fun e he => ?_, ?_, ?_⟩
    · exact isDigit_digitChars n e (htrim ▸ List.mem_append_left _ he)
    · rw [← natOfDigits_append_zeros, htrim, natOfDigits_digitChars]
    · rw [← htrim, List.length_append, List.length_replicate, List.length_cons]

theorem magnitudeChars_writes {significand : ℕ} {exponent : ℤ}
    (h : (finite false significand exponent).IsCanonical) :
    ∃ d, Writes d (magnitudeChars significand exponent) ∧
      ∀ negative, d.toBinary64 negative = finite negative significand exponent := by
  have hreads (negative : Bool) :
      (shortestDecimal significand exponent).toBinary64 negative =
        finite negative significand exponent := shortestDecimal_reads h
  simp only [magnitudeChars]
  generalize shortestDecimal significand exponent = decimal at hreads ⊢
  obtain ⟨n, e⟩ := decimal
  rcases Nat.eq_zero_or_pos n with rfl | hn
  · have hfraction : Fraction ['0'] ['.', '0'] := .point ⟨by simp, by simp⟩
    refine ⟨⟨0, 0⟩, ⟨_, _, _, _, _, .zero, hfraction, .absent, .inl (by simp), by simp, 1, rfl, rfl⟩,
      fun negative => ?_⟩
    rw [← hreads negative]
    simp [Decimal.toBinary64]
  · obtain ⟨d, ds, k, htrim, hne, hall, hvalue, hlen⟩ := exists_trimZeros hn
    have hexp : e + ((digitChars n).length : ℤ) - 1 - ds.length = e + k := by
      rw [hlen]
      push_cast
      ring
    have hwrites := layOut_writes hne hall (e + ((digitChars n).length : ℤ) - 1)
    rw [hexp] at hwrites
    refine ⟨_, by simpa [hn.ne', htrim] using hwrites, fun negative => ?_⟩
    rw [← hreads negative, ← Decimal.toBinary64_shift _ _ _ k, ← hvalue]
    simp

/-- What is written for a finite number is a numeral that denotes it. -/
theorem exists_spelling {negative : Bool} {significand : ℕ} {exponent : ℤ}
    (h : (finite negative significand exponent).IsCanonical) :
    ∃ n : Numeral, n.Spelling (finite negative significand exponent).chars ∧
      n.literal = .float (finite negative significand exponent) := by
  obtain ⟨d, hwrites, hvalue⟩ := magnitudeChars_writes h
  have hchars : (finite negative significand exponent).chars =
      minusSign negative ++ magnitudeChars significand exponent := by
    cases negative <;> rfl
  rw [hchars, ← hvalue negative]
  exact hwrites.exists_spelling negative

end Binary64

end TypeGuard
