import TypeGuard.Proofs.Grammar.Requoting

/-! # Escapes

Quotation loses nothing: what a character is written as is never the beginning of what another one
is written as, so a quoted text and where it ends can be told from any text that begins with it.
-/

namespace TypeGuard.Grammar

open Text

/-! ## Codes of four digits -/

theorem hexDigit_inj : ∀ m < 16, ∀ n < 16, hexDigit m = hexDigit n → m = n := by
  decide

theorem hexDigits_inj {width m n : ℕ} (hm : m < 16 ^ width) (hn : n < 16 ^ width)
    (h : hexDigits width m = hexDigits width n) : m = n := by
  induction width generalizing m n with
  | zero =>
    rw [pow_zero, Nat.lt_one_iff] at hm hn
    rw [hm, hn]
  | succ width ih =>
    obtain ⟨hinit, hlast⟩ := List.append_inj' h rfl
    rw [pow_succ'] at hm hn
    have hdiv : m / 16 = n / 16 :=
      ih (Nat.div_lt_of_lt_mul hm) (Nat.div_lt_of_lt_mul hn) hinit
    have hmod : m % 16 = n % 16 :=
      hexDigit_inj _ (Nat.mod_lt m (by norm_num)) _ (Nat.mod_lt n (by norm_num))
        (List.singleton_inj.mp hlast)
    omega

theorem unitEscape_append_inj {m n : ℕ} (hm : m < 0x10000) (hn : n < 0x10000) {xs ys : List Char}
    (h : unitEscape m ++ xs = unitEscape n ++ ys) : m = n ∧ xs = ys := by
  have hlength : (unitEscape m).length = (unitEscape n).length := by
    simp [unitEscape, length_hexDigits]
  obtain ⟨hcode, hrest⟩ := List.append_inj h hlength
  simp only [unitEscape, List.cons.injEq, true_and] at hcode
  exact ⟨hexDigits_inj hm hn hcode, hrest⟩

/-! ## Characters -/

def lettered (l : Char) : Char :=
  if l = 'n' then '\n' else if l = 'r' then '\r' else if l = 't' then '\t'
  else if l = 'f' then '\x0c' else if l = 'b' then '\x08' else l

inductive Code : Char → List Char → Prop
  | letter (l) : l ≠ 'u' → Code (lettered l) ['\\', l]
  | plain {c} : c ≠ '\\' → Code c [c]
  | unit {c} : c.toNat < 0x10000 → Code c (unitEscape c.toNat)
  | units {c} : 0x10000 ≤ c.toNat → Code c
      (unitEscape (0xd800 + (c.toNat - 0x10000) / 0x400) ++
        unitEscape (0xdc00 + (c.toNat - 0x10000) % 0x400))

theorem code_literalChar (c : Char) : Code c (literalChar c) := by
  unfold literalChar
  split_ifs with hquote hn hr ht hf hb hprint
  · simp only [Bool.or_eq_true, decide_eq_true_eq] at hquote
    rcases hquote with rfl | rfl
    · exact .letter '"' (by decide)
    · exact .letter '\\' (by decide)
  · exact hn ▸ .letter 'n' (by decide)
  · exact hr ▸ .letter 'r' (by decide)
  · exact ht ▸ .letter 't' (by decide)
  · exact hf ▸ .letter 'f' (by decide)
  · exact hb ▸ .letter 'b' (by decide)
  · refine .plain ?_
    rintro rfl
    exact hquote rfl
  · unfold unitEscapes
    split_ifs with hn
    · exact .unit hn
    · have hunits := Code.units (Nat.le_of_not_lt hn)
      simpa [unitEscape] using hunits

theorem toNat_not_surrogate (c : Char) : c.toNat < 0xd800 ∨ 0xdfff < c.toNat ∧ c.toNat < 0x110000 :=
  c.valid

namespace Code

variable {c d : Char} {cs ds xs ys : List Char}

/-- What a character is written as is not the beginning of what another one is written as. -/
theorem append_inj (h : Code c cs) (h' : Code d ds) (heq : cs ++ xs = ds ++ ys) :
    c = d ∧ xs = ys := by
  have hc := toNat_not_surrogate c
  have hd := toNat_not_surrogate d
  cases h with
  | letter l hl =>
    cases h' with
    | letter l' =>
      obtain ⟨rfl, hrest⟩ := List.cons.inj (List.cons.inj heq).2
      exact ⟨rfl, hrest⟩
    | plain hne => exact absurd (List.cons.inj heq).1.symm hne
    | unit | units => exact absurd (List.cons.inj (List.cons.inj heq).2).1 hl
  | plain hne =>
    cases h' with
    | plain => exact List.cons.inj heq
    | letter | unit | units => exact absurd (List.cons.inj heq).1 hne
  | unit hlt =>
    cases h' with
    | letter l hl => exact absurd (List.cons.inj (List.cons.inj heq).2).1.symm hl
    | plain hne => exact absurd (List.cons.inj heq).1.symm hne
    | unit hlt' =>
      obtain ⟨hcode, hrest⟩ := unitEscape_append_inj hlt hlt' heq
      exact ⟨Char.toNat_inj.mp hcode, hrest⟩
    | units hle =>
      rw [List.append_assoc] at heq
      obtain ⟨hcode, -⟩ := unitEscape_append_inj hlt (by omega) heq
      omega
  | units hle =>
    rw [List.append_assoc] at heq
    cases h' with
    | letter l hl => exact absurd (List.cons.inj (List.cons.inj heq).2).1.symm hl
    | plain hne => exact absurd (List.cons.inj heq).1.symm hne
    | unit hlt =>
      obtain ⟨hcode, -⟩ := unitEscape_append_inj (by omega) hlt heq
      omega
    | units hle' =>
      rw [List.append_assoc] at heq
      obtain ⟨hhigh, heq⟩ := unitEscape_append_inj (by omega) (by omega) heq
      obtain ⟨hlow, hrest⟩ := unitEscape_append_inj (by omega) (by omega) heq
      exact ⟨Char.toNat_inj.mp (by omega), hrest⟩

theorem ne_nil (h : Code c cs) : cs ≠ [] := by
  cases h <;> simp [unitEscape]

end Code

/-! ## Texts -/

/-- Texts are told apart once written if no character is written as the beginning of what another
one is written as. -/
theorem flatMap_inj {write : Char → List Char} (hne : ∀ c, write c ≠ [])
    (hinj : ∀ c d xs ys, write c ++ xs = write d ++ ys → c = d ∧ xs = ys) {cs ds : List Char}
    (h : cs.flatMap write = ds.flatMap write) : cs = ds := by
  induction cs generalizing ds with
  | nil =>
    cases ds with
    | nil => rfl
    | cons d ds => simp [hne d] at h
  | cons c cs ih =>
    cases ds with
    | nil => simp [hne c] at h
    | cons d ds =>
      rw [List.flatMap_cons, List.flatMap_cons] at h
      obtain ⟨rfl, hrest⟩ := hinj _ _ _ _ h
      rw [ih hrest]

theorem flatMap_literalChar_inj {cs ds : List Char}
    (h : cs.flatMap literalChar = ds.flatMap literalChar) : cs = ds :=
  flatMap_inj (fun c => (code_literalChar c).ne_nil)
    (fun c d _ _ => (code_literalChar c).append_inj (code_literalChar d)) h

theorem literal_append_inj {cs ds xs ys : List Char}
    (h : Text.literal cs ++ xs = Text.literal ds ++ ys) : cs = ds ∧ xs = ys := by
  simp only [Text.literal, List.cons_append, List.append_assoc, List.nil_append, List.cons.injEq,
    true_and] at h
  have hread := congrArg (quotedBody '"') h
  rw [quotedBody_complete (by decide) (quotedBody_literal cs),
    quotedBody_complete (by decide) (quotedBody_literal ds), Option.some.injEq,
    Prod.mk.injEq] at hread
  exact ⟨flatMap_literalChar_inj hread.1, hread.2⟩

end TypeGuard.Grammar
