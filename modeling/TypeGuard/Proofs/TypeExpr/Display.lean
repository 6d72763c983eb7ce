import TypeGuard.TypeExpr.Listing
import TypeGuard.Proofs.Grammar.Escapes
import TypeGuard.Proofs.TypeExpr.Numbers
import TypeGuard.Proofs.TypeExpr.Readability

/-! # Displayed literals

What is shown to a reader of a literal tells the literal: a text is quoted so that nothing of it is
lost, and a number that is not finite is shown as a word, which is no numeral.
-/

namespace TypeGuard

open Text Grammar

/-! ## Texts -/

namespace Text

def hexWidths : List (Char × ℕ) :=
  [('x', 2), ('u', 4), ('U', 8)]

inductive DisplayCode : Char → List Char → Prop
  | letter {l} : l ∉ '\n' :: hexWidths.map Prod.fst → DisplayCode (lettered l) ['\\', l]
  | plain {c} : c ∉ ['\\', '\n'] → DisplayCode c [c]
  | hex {c} (entry) : entry ∈ hexWidths → c.toNat < 16 ^ entry.2 →
      DisplayCode c ('\\' :: entry.1 :: hexDigits entry.2 c.toNat)

theorem displayCode_hexEscape (c : Char) : DisplayCode c (hexEscape c) := by
  unfold hexEscape
  dsimp only
  split_ifs with hx hu
  · exact .hex ('x', 2) (by decide) hx
  · exact .hex ('u', 4) (by decide) hu
  · have hvalid := toNat_not_surrogate c
    exact .hex ('U', 8) (by decide) (by norm_num; omega)

theorem displayCode_displayChar {quote : Char} (hquote : quote = '\'' ∨ quote = '"') (c : Char) :
    DisplayCode c (displayChar quote c) := by
  unfold displayChar
  split_ifs with hsame hn hr ht hprint
  · simp only [Bool.or_eq_true, decide_eq_true_eq] at hsame
    rcases hsame with rfl | rfl
    · rcases hquote with rfl | rfl
      · exact .letter (l := '\'') (by decide)
      · exact .letter (l := '"') (by decide)
    · exact .letter (l := '\\') (by decide)
  · exact hn ▸ .letter (l := 'n') (by decide)
  · exact hr ▸ .letter (l := 'r') (by decide)
  · exact ht ▸ .letter (l := 't') (by decide)
  · refine .plain fun hmem => ?_
    rcases List.mem_cons.mp hmem with rfl | hmem
    · simp at hsame
    · exact hn (List.mem_singleton.mp hmem)
  · exact displayCode_hexEscape c

namespace DisplayCode

variable {c d : Char} {cs ds xs ys : List Char}

theorem ne_nil (h : DisplayCode c cs) : cs ≠ [] := by
  cases h <;> simp

theorem newline_not_mem (h : DisplayCode c cs) : '\n' ∉ cs := by
  cases h with
  | letter hl =>
    rw [List.mem_cons, not_or]
    exact ⟨by decide, fun hmem => hl (List.mem_singleton.mp hmem ▸ List.mem_cons_self)⟩
  | plain hc => exact fun hmem => hc (List.mem_singleton.mp hmem ▸ by simp)
  | hex entry hentry =>
    have hletter : ∀ e ∈ hexWidths, '\n' ≠ e.1 := by decide
    rw [List.mem_cons, List.mem_cons, not_or, not_or]
    exact ⟨by decide, hletter entry hentry, not_mem_hexDigits (by decide) entry.2 _⟩

theorem append_inj (h : DisplayCode c cs) (h' : DisplayCode d ds) (heq : cs ++ xs = ds ++ ys) :
    c = d ∧ xs = ys := by
  cases h with
  | letter hl =>
    cases h' with
    | letter =>
      obtain ⟨rfl, hrest⟩ := List.cons.inj (List.cons.inj heq).2
      exact ⟨rfl, hrest⟩
    | plain hd => exact absurd (List.cons.inj heq).1.symm (List.ne_of_not_mem_cons hd)
    | hex entry hentry =>
      obtain ⟨rfl, -⟩ := List.cons.inj (List.cons.inj heq).2
      exact absurd (List.mem_cons_of_mem _ (List.mem_map_of_mem hentry)) hl
  | plain hc =>
    cases h' with
    | plain => exact List.cons.inj heq
    | letter | hex => exact absurd (List.cons.inj heq).1 (List.ne_of_not_mem_cons hc)
  | hex entry hentry hlt =>
    cases h' with
    | letter hl =>
      obtain ⟨rfl, -⟩ := List.cons.inj (List.cons.inj heq).2
      exact absurd (List.mem_cons_of_mem _ (List.mem_map_of_mem hentry)) hl
    | plain hd => exact absurd (List.cons.inj heq).1.symm (List.ne_of_not_mem_cons hd)
    | hex entry' hentry' hlt' =>
      obtain ⟨hletter, hdigits⟩ := List.cons.inj (List.cons.inj heq).2
      -- The letter tells how many digits there are.
      have hwidth : ∀ e ∈ hexWidths, ∀ e' ∈ hexWidths, e.1 = e'.1 → e = e' := by decide
      obtain rfl := hwidth entry hentry entry' hentry' hletter
      obtain ⟨hcode, hrest⟩ := List.append_inj hdigits (by simp [length_hexDigits])
      exact ⟨Char.toNat_inj.mp (hexDigits_inj hlt hlt' hcode), hrest⟩

end DisplayCode

theorem displayQuote_cases (cs : List Char) : displayQuote cs = '\'' ∨ displayQuote cs = '"' := by
  unfold displayQuote
  split_ifs
  · exact .inr rfl
  · exact .inl rfl

/-- A text that is quoted for a reader can be told from the quotation. -/
theorem display_injective : Function.Injective display := by
  intro cs ds h
  obtain ⟨hquote, hrest⟩ := List.cons.inj h
  rw [← hquote] at hrest
  have hcode := displayCode_displayChar (displayQuote_cases cs)
  exact flatMap_inj (fun c => (hcode c).ne_nil)
    (fun c d _ _ => (hcode c).append_inj (hcode d)) (List.append_cancel_right hrest)

theorem newline_not_mem_display (cs : List Char) : '\n' ∉ display cs := by
  have hcode := displayCode_displayChar (displayQuote_cases cs)
  have hquote : '\n' ≠ displayQuote cs := by
    rcases displayQuote_cases cs with heq | heq <;> rw [heq] <;> decide
  intro hmem
  rcases List.mem_append.mp hmem with hmem | hmem
  · rcases List.mem_cons.mp hmem with heq | hmem
    · exact hquote heq
    · obtain ⟨c, -, hc⟩ := List.mem_flatMap.mp hmem
      exact (hcode c).newline_not_mem hc
  · exact hquote (List.mem_singleton.mp hmem)

end Text

/-! ## Literals -/

namespace Literal

theorem newline_not_mem_display (v : Literal) : '\n' ∉ v.display := by
  have hnumber : ¬ IsNumberChar '\n' := by
    simp [IsNumberChar]
  cases v with
  | bool b => cases b <;> decide
  | str s => exact Text.newline_not_mem_display s.toList
  | int i => exact fun hmem => hnumber (isNumberChar_intChars i _ hmem)
  | float x => exact fun hmem => hnumber (x.isNumberChar_chars _ hmem)

def IsSpelled (v : Literal) : Prop :=
  ∃ n : Numeral, n.Spelling v.display ∧ n.literal = v

def words : List Literal :=
  [bool true, bool false, float .nan, float (.infinity true), float (.infinity false)]

theorem isSpelled_or {v : Literal} (hv : v.IsCanonical) :
    v.IsSpelled ∨ v ∈ words ∨ ∃ s, v = str s := by
  cases v with
  | bool b => cases b <;> exact .inr (.inl (by decide))
  | str s => exact .inr (.inr ⟨s, rfl⟩)
  | int i => exact .inl (isReread_int i).spelled
  | float x =>
    cases x with
    | nan => exact .inr (.inl (by decide))
    | infinity negative => cases negative <;> exact .inr (.inl (by decide))
    | finite => exact .inl ((isReread_float_iff (x := .finite ..) hv).mpr trivial).spelled

theorem not_spelling_display_word {v : Literal} (hv : v ∈ words) (n : Numeral) :
    ¬ n.Spelling v.display := by
  have hletter : ∀ v ∈ words, 'u' ∈ v.display ∨ 's' ∈ v.display ∨ 'n' ∈ v.display := by decide
  rcases hletter v hv with hc | hc | hc <;>
    exact Numeral.not_spelling_of_mem hc (by decide) (by decide)

theorem not_spelling_display_str (s : String) (n : Numeral) : ¬ n.Spelling (str s).display := by
  have hquote : displayQuote s.toList ∈ (str s).display := List.mem_cons_self
  rcases displayQuote_cases s.toList with heq | heq <;>
    exact Numeral.not_spelling_of_mem (heq ▸ hquote) (by decide) (by decide)

theorem display_word_ne_display_str {v : Literal} (hv : v ∈ words) (s : String) :
    v.display ≠ (str s).display := by
  have hquotes : v.display.head? ≠ some '\'' ∧ v.display.head? ≠ some '"' := by
    revert v
    decide
  intro h
  rw [h] at hquotes
  rcases displayQuote_cases s.toList with heq | heq
  · exact hquotes.1 (congrArg some heq)
  · exact hquotes.2 (congrArg some heq)

theorem IsSpelled.eq_of_display_eq {v w : Literal} (hv : v.IsSpelled) (hw : w.IsSpelled)
    (h : v.display = w.display) : v = w := by
  obtain ⟨n, hn, rfl⟩ := hv
  obtain ⟨m, hm, rfl⟩ := hw
  have hbreak : Numeral.Break [] := fun c hc => nomatch hc
  have hscan := Numeral.scan_complete hn hbreak
  rw [h, Numeral.scan_complete hm hbreak, Option.some.injEq, Prod.mk.injEq] at hscan
  rw [hscan.1]

theorem eq_of_display_eq {v w : Literal} (hv : v.IsCanonical) (hw : w.IsCanonical)
    (h : v.display = w.display) : v = w := by
  rcases isSpelled_or hv with hspelled | hword | ⟨s, rfl⟩
  · rcases isSpelled_or hw with hspelled' | hword' | ⟨s', rfl⟩
    · exact hspelled.eq_of_display_eq hspelled' h
    · obtain ⟨n, hn, -⟩ := hspelled
      exact absurd (h ▸ hn) (not_spelling_display_word hword' n)
    · obtain ⟨n, hn, -⟩ := hspelled
      exact absurd (h ▸ hn) (not_spelling_display_str s' n)
  · rcases isSpelled_or hw with ⟨n, hn, -⟩ | hword' | ⟨s', rfl⟩
    · exact absurd (h ▸ hn) (not_spelling_display_word hword n)
    · have hinj : ∀ v ∈ words, ∀ w ∈ words, v.display = w.display → v = w := by decide
      exact hinj v hword w hword' h
    · exact absurd h (display_word_ne_display_str hword s')
  · rcases isSpelled_or hw with ⟨n, hn, -⟩ | hword' | ⟨s', rfl⟩
    · exact absurd (h ▸ hn) (not_spelling_display_str s n)
    · exact absurd h.symm (display_word_ne_display_str hword' s)
    · exact congrArg str (String.toList_inj.mp (display_injective h))

end Literal

end TypeGuard
