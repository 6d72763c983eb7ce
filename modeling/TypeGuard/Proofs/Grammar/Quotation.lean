import TypeGuard.Proofs.Grammar.Lexeme
import TypeGuard.Text.Quoted

/-! # Quoted texts

What stands between the quotes of a literal or a key, and what it stands for.
-/

namespace TypeGuard.Grammar

open Text

/-- What may stand before a closing quote: pairs of a backslash and a character, and characters
other than the quote, on one line. -/
inductive QuotedBody (quote : Char) : List Char → Prop
  | nil : QuotedBody quote []
  | escape {c cs} : c ≠ '\n' → QuotedBody quote cs → QuotedBody quote ('\\' :: c :: cs)
  | plain {c cs} : c ≠ quote → c ≠ '\\' → c ≠ '\n' → c ≠ '\r' → QuotedBody quote cs →
      QuotedBody quote (c :: cs)

theorem quotedBody_sound {quote : Char} {cs body rest : List Char}
    (h : quotedBody quote cs = some (body, rest)) :
    QuotedBody quote body ∧ cs = body ++ quote :: rest := by
  fun_induction quotedBody quote cs generalizing body with
  | case1 => simp at h
  | case2 => simp at h
  | case3 => simp at h
  | case4 c cs hc ih =>
    simp only [Option.map_eq_some_iff, Prod.mk.injEq, Prod.exists] at h
    obtain ⟨b, r, hb, rfl, rfl⟩ := h
    obtain ⟨hq, rfl⟩ := ih hb
    exact ⟨.escape hc hq, rfl⟩
  | case5 cs h₁ h₂ =>
    simp only [Option.some.injEq, Prod.mk.injEq] at h
    obtain ⟨rfl, rfl⟩ := h
    exact ⟨.nil, rfl⟩
  | case6 => simp at h
  | case7 c cs h₁ h₂ hq hl ih =>
    simp only [Option.map_eq_some_iff, Prod.mk.injEq, Prod.exists] at h
    obtain ⟨b, r, hb, rfl, rfl⟩ := h
    obtain ⟨hbody, rfl⟩ := ih hb
    simp only [Bool.or_eq_true, decide_eq_true_eq, not_or] at hl
    have hs : c ≠ '\\' := by
      rintro rfl
      cases hcs : b ++ quote :: r with
      | nil => simp at hcs
      | cons d ds => exact h₂ d ds rfl hcs
    exact ⟨.plain hq hs hl.1 hl.2 hbody, rfl⟩

theorem quotedBody_complete {quote : Char} {body : List Char} (hq : quote ≠ '\\')
    (h : QuotedBody quote body) (rest : List Char) :
    quotedBody quote (body ++ quote :: rest) = some (body, rest) := by
  induction h with
  | nil => simp [quotedBody, hq]
  | escape hc _ ih => simp [quotedBody, hc, ih]
  | plain h₁ h₂ h₃ h₄ _ ih => simp [quotedBody, h₁, h₂, h₃, h₄, ih]

def Quoted (s : String) (cs rest : List Char) : Prop :=
  ∃ quote body, (quote = '"' ∨ quote = '\'') ∧ QuotedBody quote body ∧
    s = String.ofList (unescape body) ∧ Spelled (quote :: (body ++ [quote])) cs rest

theorem isGap_of_quote {quote : Char} (h : quote = '"' ∨ quote = '\'') : isGap quote = false := by
  rcases h with rfl | rfl <;> decide

theorem quoted_eq_some_iff {s : String} {cs rest : List Char} :
    quoted cs = some (s, rest) ↔ Quoted s cs rest := by
  constructor
  · intro h
    rw [quoted] at h
    split at h
    · next quote r hr =>
      split_ifs at h with hq
      simp only [Option.map_eq_some_iff, Prod.mk.injEq, Prod.exists] at h
      obtain ⟨body, _, hb, rfl, rfl⟩ := h
      obtain ⟨hbody, rfl⟩ := quotedBody_sound hb
      simp only [Bool.or_eq_true, decide_eq_true_eq] at hq
      refine ⟨quote, body, hq, hbody, rfl, ?_⟩
      rw [spelled_iff (isGap_of_quote hq), hr, List.append_assoc, List.singleton_append]
    · simp at h
  · rintro ⟨quote, body, hq, hbody, rfl, h⟩
    have hs : quote ≠ '\\' := by rcases hq with rfl | rfl <;> decide
    have hb : (decide (quote = '"') || decide (quote = '\'')) = true := by simpa using hq
    rw [spelled_iff (isGap_of_quote hq), List.append_assoc, List.singleton_append] at h
    simp [quoted, h, hb, quotedBody_complete hs hbody]

theorem Quoted.of_skipGaps {s : String} {cs rest : List Char} (h : Quoted s (skipGaps cs) rest) :
    Quoted s cs rest := by
  obtain ⟨quote, body, hq, hbody, hs, h⟩ := h
  exact ⟨quote, body, hq, hbody, hs, h.of_skipGaps⟩

theorem Quoted.length_lt {s : String} {cs rest : List Char} (h : Quoted s cs rest) :
    rest.length < cs.length := by
  obtain ⟨_, _, _, _, _, h⟩ := h
  exact h.length_lt

/-! ## Escapes -/

theorem escape_of_not_octal {c : Char} {cs : List Char} (hcontrol : controlEscape c = none)
    (h : ¬ (isOctalDigit c = true ∧ cs.head? = some '3')) :
    escape c cs =
      if c = '0' then (['\x00'], cs)
      else match codeEscape c cs with
        | some (d, rest) => ([d], rest)
        | none => ([c], cs) := by
  unfold escape
  simp only [hcontrol]
  split
  · next hc => exact absurd ⟨hc, rfl⟩ h
  · rfl

theorem escape_of_ordinary {c : Char} (hcontrol : controlEscape c = none)
    (hoctal : isOctalDigit c = false) (hx : c ≠ 'x') (hu : c ≠ 'u') (cs : List Char) :
    escape c cs = ([c], cs) := by
  have hcode : codeEscape c cs = none := by
    unfold codeEscape
    split
    · split <;> simp [hx, hu]
    · rfl
  have hzero : c ≠ '0' := by
    rintro rfl
    exact absurd hoctal (by decide)
  rw [escape_of_not_octal hcontrol (by simp [hoctal]), if_neg hzero, hcode]

theorem codeEscape_length_le {letter d : Char} {cs rest : List Char}
    (h : codeEscape letter cs = some (d, rest)) : rest.length ≤ cs.length := by
  unfold codeEscape at h
  split at h
  · split at h
    · split_ifs at h <;> (obtain ⟨-, rfl⟩ := Prod.mk.inj (Option.some.inj h); simp; omega)
    · cases h
  · cases h

theorem escape_length_le (c : Char) (cs : List Char) : (escape c cs).2.length ≤ cs.length := by
  unfold escape
  split
  · exact le_rfl
  · split
    · simp
    · split_ifs
      · exact le_rfl
      · split
        · next h => exact codeEscape_length_le h
        · exact le_rfl

theorem unescapeUpTo_escape (n : ℕ) (c : Char) (cs : List Char) :
    unescapeUpTo (n + 1) ('\\' :: c :: cs) =
      (escape c cs).1 ++ unescapeUpTo n (escape c cs).2 := rfl

theorem unescapeUpTo_cons {c : Char} (hc : c ≠ '\\') (n : ℕ) (cs : List Char) :
    unescapeUpTo (n + 1) (c :: cs) = c :: unescapeUpTo n cs := by
  rw [unescapeUpTo]
  exact fun _ _ h => absurd h hc

theorem unescapeUpTo_eq {n : ℕ} {cs : List Char} (h : cs.length ≤ n) :
    unescapeUpTo n cs = unescape cs := by
  suffices hcongr : ∀ m n cs, List.length cs ≤ m → cs.length ≤ n →
      unescapeUpTo m cs = unescapeUpTo n cs from hcongr n _ cs h le_rfl
  intro m
  induction m with
  | zero =>
    intro n cs hm _
    obtain rfl := List.length_eq_zero_iff.mp (Nat.le_zero.mp hm)
    cases n <;> rfl
  | succ m ih =>
    intro n cs hm hn
    cases n with
    | zero =>
      obtain rfl := List.length_eq_zero_iff.mp (Nat.le_zero.mp hn)
      rfl
    | succ n =>
      cases cs with
      | nil => rfl
      | cons c cs =>
        simp only [List.length_cons] at hm hn
        by_cases hc : c = '\\'
        · subst hc
          cases cs with
          | nil => exact congrArg _ (ih n [] (by simp) (by simp))
          | cons d cs =>
            have hle := escape_length_le d cs
            simp only [List.length_cons] at hm hn
            rw [unescapeUpTo_escape, unescapeUpTo_escape, ih n _ (by omega) (by omega)]
        · rw [unescapeUpTo_cons hc, unescapeUpTo_cons hc, ih n cs (by omega) (by omega)]

theorem unescape_escape (c : Char) (cs : List Char) :
    unescape ('\\' :: c :: cs) = (escape c cs).1 ++ unescape (escape c cs).2 := by
  have hle := escape_length_le c cs
  rw [unescape, List.length_cons, unescapeUpTo_escape, unescapeUpTo_eq]
  simp only [List.length_cons]
  omega

theorem unescape_cons {c : Char} (hc : c ≠ '\\') (cs : List Char) :
    unescape (c :: cs) = c :: unescape cs := by
  rw [unescape, List.length_cons, unescapeUpTo_cons hc]
  rfl

def IsPrintableAscii (c : Char) : Prop :=
  32 ≤ c.toNat ∧ c.toNat ≤ 126

theorem escape_of_quote {c : Char} (hc : c = '"' ∨ c = '\\') (rest : List Char) :
    escape c rest = ([c], rest) := by
  rcases hc with rfl | rfl <;> exact escape_of_ordinary rfl rfl (by decide) (by decide) rest

end TypeGuard.Grammar
