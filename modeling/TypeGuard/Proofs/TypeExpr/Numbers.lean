import TypeGuard.Proofs.TypeExpr.RoundTrip

/-! # Numbers in a round trip

A number literal is written as a numeral for the same number if it is an integer or was read as a
finite number. What lies beyond the range of binary64 was read as an infinity, for which there is no
numeral: its text is read as a name, and with a minus sign in front it is not read at all.
-/

namespace TypeGuard

open Text Grammar

theorem Numeral.not_spelling_of_mem {n : Numeral} {w : List Char} {c : Char} (hc : c ∈ w)
    (hn : c.isDigit = false) (hs : c ∉ ['-', '+', '.', 'e', 'E']) : ¬ n.Spelling w := by
  intro h
  rcases h.char c hc with hdigit | hsign
  · exact Bool.false_ne_true (hn.symm.trans hdigit)
  · exact hs hsign

namespace Literal

/-- A literal is written as a numeral that denotes it, and its text is parsed as it. -/
structure IsReread (v : Literal) : Prop where
  spelled : ∃ n : Numeral, n.Spelling v.chars ∧ n.literal = v
  parsed : TypeExpr.parse (TypeExpr.literal v).text = .ok (.literal v)

theorem isReread_of_spelling {v : Literal} {n : Numeral} (h : n.Spelling v.chars)
    (hv : n.literal = v) : v.IsReread := by
  have hwrites := writes_numeral h
  rw [hv] at hwrites
  have htype : WritesAt .function v.chars (.literal v) := .ofPrimary hwrites
  exact ⟨⟨n, h, hv⟩, Writes.parse_eq htype⟩

theorem isReread_int (i : ℤ) : (int i).IsReread := by
  obtain ⟨n, hn, hv⟩ := Numeral.exists_spelling_int i
  exact isReread_of_spelling hn hv

theorem isReread_float_iff {x : Binary64} (hx : x.IsCanonical) :
    (float x).IsReread ↔ x.IsFinite := by
  constructor
  · rintro ⟨⟨n, hn, -⟩, -⟩
    cases x with
    | finite => trivial
    | nan => exact Numeral.not_spelling_of_mem (show 'n' ∈ _ by decide) (by decide) (by decide) hn
    | infinity negative =>
      have hmem : 'n' ∈ (float (.infinity negative)).chars := by cases negative <;> decide
      exact Numeral.not_spelling_of_mem hmem (by decide) (by decide) hn
  · intro hfinite
    cases x with
    | finite =>
      obtain ⟨n, hn, hv⟩ := Binary64.exists_spelling hx
      exact isReread_of_spelling hn hv
    | _ => exact hfinite.elim

end Literal

namespace Numeral

theorem literal_of_overflow {n : Numeral} (hn : n.isInteger = false)
    (hv : Binary64.overflow ≤ n.decimal.value) :
    n.literal = .float (.infinity n.negative) := by
  simp [literal, hn, toBinary64, Decimal.toBinary64_eq_infinity_iff.mpr hv]

theorem isReread_literal_iff (n : Numeral) :
    n.literal.IsReread ↔ n.isInteger = true ∨ n.decimal.value < Binary64.overflow := by
  cases hn : n.isInteger with
  | true =>
    have hint : n.literal = .int n.toInt := by simp [literal, hn]
    rw [hint]
    exact iff_of_true (Literal.isReread_int _) (.inl rfl)
  | false =>
    have hfloat : n.literal = .float (n.decimal.toBinary64 n.negative) := by
      simp [literal, hn, toBinary64]
    rw [hfloat, Literal.isReread_float_iff (Decimal.isCanonical_toBinary64 _ _),
      Decimal.isFinite_toBinary64_iff]
    simp

end Numeral

/-! ## Infinities -/

theorem parse_inf : TypeExpr.parse "inf" = .ok (.named "inf") := by
  have hname : TypeExpr.IsName "inf" :=
    .inr ⟨isWord_of_test (by decide) (by decide), keyword_eq_none_iff.mp rfl⟩
  exact TypeExpr.parse_name hname

theorem parse_minus_inf (t : TypeExpr) : TypeExpr.parse "-inf" ≠ .ok t := by
  rw [Ne, TypeExpr.parse_eq_ok_iff_parseText]
  intro h
  cbv at h
  cases h

/-- A number literal is parsed as the number that its numeral denotes. Its text is again a numeral
for the same number, and is parsed as it, if and only if the numeral is an integer or lies within
the range of binary64. Beyond the range its text is parsed as a name, or refused if it has a minus
sign. -/
theorem TypeExpr.parse_text_of_numeral {n : Numeral} {w : List Char} (h : n.Spelling w) :
    TypeExpr.parse (String.ofList w) = .ok (literal n.literal) ∧
      (n.literal.IsReread ↔ n.isInteger = true ∨ n.decimal.value < Binary64.overflow) ∧
      (n.isInteger = false → Binary64.overflow ≤ n.decimal.value →
        if n.negative then ∀ t, TypeExpr.parse (literal n.literal).text ≠ .ok t
        else TypeExpr.parse (literal n.literal).text = .ok (named "inf")) := by
  have htype : WritesAt .function w (literal n.literal) := .ofPrimary (writes_numeral h)
  refine ⟨Writes.parse_eq htype, n.isReread_literal_iff, fun hfloat hover => ?_⟩
  rw [Numeral.literal_of_overflow hfloat hover]
  cases n.negative with
  | true => exact parse_minus_inf
  | false => exact parse_inf

/-- A negative numeral beyond the range. -/
theorem TypeExpr.parse_text_of_overflow :
    let n : Numeral := ⟨true, ['1'], [], some 309⟩
    n.Spelling "-1e309".toList ∧ n.isInteger = false ∧ Binary64.overflow ≤ n.decimal.value ∧
      TypeExpr.parse "-1e309" = .ok (literal (.float (.infinity true))) ∧
      ¬ n.literal.IsReread ∧ ∀ t, TypeExpr.parse (literal n.literal).text ≠ .ok t := by
  intro n
  have hspelling : n.Spelling "-1e309".toList := by
    obtain ⟨w, hw, hcs⟩ : ∃ w, n.Spelling w ∧ "-1e309".toList = w ++ [] :=
      Numeral.scan_sound (by decide)
    rwa [hcs, List.append_nil]
  have hover : Binary64.overflow ≤ n.decimal.value := by
    have hvalue : n.decimal.value = 10 ^ (309 : ℤ) := by
      simp [n, Decimal.value, Numeral.decimal, natOfDigits]
    rw [hvalue]
    calc Binary64.overflow ≤ 2 ^ 1024 := Binary64.overflow_lt_two_pow.le
      _ ≤ 10 ^ (309 : ℤ) := by exact_mod_cast (by decide +kernel : 2 ^ 1024 ≤ 10 ^ 309)
  obtain ⟨hparse, hiff, hinf⟩ := parse_text_of_numeral hspelling
  have hliteral : n.literal = .float (.infinity true) := Numeral.literal_of_overflow rfl hover
  rw [hliteral] at hparse
  refine ⟨hspelling, rfl, hover, hparse, ?_, hinf rfl hover⟩
  rw [hiff, not_or]
  exact ⟨Bool.false_ne_true, not_lt.mpr hover⟩

end TypeGuard
