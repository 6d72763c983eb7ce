import Mathlib
import TypeGuard.Grammar.Parse

/-! # Lexemes

The tokens of type expressions as relations between a text and what follows the token in it. Gaps
may stand before every token. Each reader of a token finds exactly the tokens of its kind.
-/

namespace TypeGuard

namespace Text

/-! ## Runs of characters -/

section Runs

variable {p : Char → Bool} {w rest : List Char}

theorem takeWhile_run (hw : ∀ c ∈ w, p c = true) (hr : ∀ c ∈ rest.head?, p c = false) :
    (w ++ rest).takeWhile p = w := by
  rw [List.takeWhile_append_of_pos hw]
  cases rest with
  | nil => simp
  | cons c cs => simp [hr c rfl]

theorem dropWhile_run (hw : ∀ c ∈ w, p c = true) (hr : ∀ c ∈ rest.head?, p c = false) :
    (w ++ rest).dropWhile p = rest := by
  rw [List.dropWhile_append_of_pos hw]
  cases rest with
  | nil => simp
  | cons c cs => simp [hr c rfl]

theorem head?_dropWhile_false (p : Char → Bool) (cs : List Char) :
    ∀ c ∈ (cs.dropWhile p).head?, p c = false := by
  intro c hc
  have h := List.head?_dropWhile_not p cs
  rw [Option.mem_def] at hc
  simpa [hc] using h

end Runs

end Text

namespace Grammar

open Text TypeExpr

/-! ## Spellings -/

/-- The text is gaps and the given spelling before the rest. -/
def Spelled (w cs rest : List Char) : Prop :=
  ∃ gaps, (∀ c ∈ gaps, isGap c = true) ∧ cs = gaps ++ (w ++ rest)

theorem spelled_of_skipGaps {w cs rest : List Char} (h : skipGaps cs = w ++ rest) :
    Spelled w cs rest := by
  refine ⟨cs.takeWhile isGap, fun d hd => List.mem_takeWhile_imp hd, ?_⟩
  rw [← h, skipGaps, List.takeWhile_append_dropWhile]

theorem spelled_iff {c : Char} {w cs rest : List Char} (hc : isGap c = false) :
    Spelled (c :: w) cs rest ↔ skipGaps cs = c :: (w ++ rest) := by
  constructor
  · rintro ⟨gaps, hg, rfl⟩
    exact dropWhile_run hg (by simpa using hc)
  · intro h
    exact spelled_of_skipGaps (by rw [h, List.cons_append])

theorem Spelled.of_skipGaps {w cs rest : List Char} (h : Spelled w (skipGaps cs) rest) :
    Spelled w cs rest := by
  obtain ⟨gaps, hg, hs⟩ := h
  refine ⟨cs.takeWhile isGap ++ gaps, ?_, ?_⟩
  · intro c hc
    exact (List.mem_append.mp hc).elim (fun hc => List.mem_takeWhile_imp hc) (hg c)
  · rw [List.append_assoc, ← hs, skipGaps, List.takeWhile_append_dropWhile]

theorem Spelled.length {w cs rest : List Char} (h : Spelled w cs rest) :
    w.length + rest.length ≤ cs.length := by
  obtain ⟨gaps, -, rfl⟩ := h
  simp only [List.length_append]
  omega

theorem Spelled.length_lt {c : Char} {w cs rest : List Char} (h : Spelled (c :: w) cs rest) :
    rest.length < cs.length := by
  have := h.length
  simp only [List.length_cons] at this
  omega

theorem symbol_eq_some_iff {c : Char} {cs rest : List Char} {u : Unit} (hc : isGap c = false) :
    symbol c cs = some (u, rest) ↔ Spelled [c] cs rest := by
  rw [spelled_iff hc, symbol]
  cases skipGaps cs with
  | nil => simp
  | cons d ds => simp

theorem arrow_eq_some_iff {cs rest : List Char} {u : Unit} :
    arrow cs = some (u, rest) ↔ Spelled ['=', '>'] cs rest := by
  rw [spelled_iff rfl, arrow]
  split
  · next r h => simp [h]
  · next h => simpa using h rest

/-! ## Words -/

def IsWord (w : List Char) : Prop :=
  ∃ c cs, w = c :: cs ∧ isWordStart c = true ∧ ∀ d ∈ cs, isWordPart d = true

def WordBreak (rest : List Char) : Prop :=
  ∀ c ∈ rest.head?, isWordPart c = false

theorem wordBreak_nil : WordBreak [] := by
  simp [WordBreak]

theorem wordBreak_cons {c : Char} (rest : List Char) (h : isWordPart c = false) :
    WordBreak (c :: rest) := by
  intro d hd
  exact Option.some.inj hd ▸ h

structure Word (name : String) (cs rest : List Char) : Prop where
  isWord : IsWord name.toList
  spelled : Spelled name.toList cs rest
  wordBreak : WordBreak rest

theorem isBlank_eq_false_of_isWordPart {c : Char} (h : isWordPart c = true) :
    isBlank c = false := by
  have hn : c.toNat = c.val.toNat := rfl
  simp only [isWordPart, Char.isAlphanum, Char.isAlpha, Char.isUpper, Char.isLower, Char.isDigit,
    Bool.or_eq_true, Bool.and_eq_true, decide_eq_true_eq, UInt32.le_iff_toNat_le] at h
  have hc : (48 ≤ c.toNat ∧ c.toNat ≤ 122) := by
    rcases h with ((h | h) | h) | rfl
    · simp at h; omega
    · simp at h; omega
    · simp at h; omega
    · decide
  simp only [isBlank, Bool.or_eq_false_iff, Bool.and_eq_false_iff, decide_eq_false_iff_not]
  omega

theorem isGap_eq_false_of_isWordPart {c : Char} (h : isWordPart c = true) : isGap c = false := by
  by_contra hg
  have := isBlank_of_isGap (Bool.not_eq_false _ ▸ hg)
  rw [isBlank_eq_false_of_isWordPart h] at this
  exact Bool.false_ne_true this

theorem isWordPart_of_isWordStart {c : Char} (h : isWordStart c = true) :
    isWordPart c = true := by
  simp only [isWordStart, isWordPart, Char.isAlphanum, Bool.or_eq_true] at h ⊢
  exact h.imp_left Or.inl

theorem isWordPart_of_isDigit {c : Char} (h : c.isDigit = true) : isWordPart c = true := by
  simp [isWordPart, Char.isAlphanum, h]

theorem isWordStart_of_isDigit {c : Char} (h : c.isDigit = true) : isWordStart c = false := by
  have hn : c.toNat = c.val.toNat := rfl
  have hu : c ≠ '_' := by rintro rfl; simp at h
  simp only [Char.isDigit, Bool.and_eq_true, decide_eq_true_eq, UInt32.le_iff_toNat_le] at h
  simp [isWordStart, Char.isAlpha, Char.isUpper, Char.isLower, UInt32.le_iff_toNat_le, hu] at h ⊢
  omega

theorem IsWord.all {w : List Char} (h : IsWord w) : ∀ c ∈ w, isWordPart c = true := by
  obtain ⟨c, cs, rfl, hc, hcs⟩ := h
  exact List.forall_mem_cons.mpr ⟨isWordPart_of_isWordStart hc, hcs⟩

theorem Word.skipGaps_eq {name : String} {cs rest : List Char} (h : Word name cs rest) :
    skipGaps cs = name.toList ++ rest := by
  obtain ⟨c, w, hw, hc, -⟩ := h.isWord
  have hs := h.spelled
  rw [hw] at hs ⊢
  exact (spelled_iff (isGap_eq_false_of_isWordPart (isWordPart_of_isWordStart hc))).mp hs

theorem identifier_eq_some_iff {name : String} {cs rest : List Char} :
    identifier cs = some (name, rest) ↔ Word name cs rest := by
  constructor
  · intro h
    rw [identifier] at h
    split at h
    · next c cs' hcs =>
      split at h
      · next hc =>
        simp only [Option.some.injEq, Prod.mk.injEq] at h
        obtain ⟨rfl, rfl⟩ := h
        have hg := isGap_eq_false_of_isWordPart (isWordPart_of_isWordStart hc)
        refine ⟨⟨c, _, String.toList_ofList, hc, fun d hd => List.mem_takeWhile_imp hd⟩, ?_,
          head?_dropWhile_false _ _⟩
        rw [String.toList_ofList, spelled_iff hg, hcs, List.takeWhile_append_dropWhile]
      · simp at h
    · simp at h
  · intro h
    have hs := h.skipGaps_eq
    obtain ⟨c, w, hw, hc, hall⟩ := h.isWord
    rw [identifier, hs, hw]
    simp only [List.cons_append, hc, if_true]
    rw [takeWhile_run hall h.wordBreak, dropWhile_run hall h.wordBreak, ← hw,
      String.ofList_toList]

theorem Word.unique {m n : String} {cs r r' : List Char} (h : Word m cs r) (h' : Word n cs r') :
    m = n ∧ r = r' := by
  have := (identifier_eq_some_iff.mpr h).symm.trans (identifier_eq_some_iff.mpr h')
  simpa using this

inductive Keyword : String → TypeExpr → Prop
  | true : Keyword "true" (literal (.bool true))
  | false : Keyword "false" (literal (.bool false))
  | string : Keyword "string" (primitive .string)
  | number : Keyword "number" (primitive .number)
  | boolean : Keyword "boolean" (primitive .boolean)
  | bool : Keyword "bool" (primitive .boolean)
  | null : Keyword "null" null
  | void : Keyword "void" void
  | any : Keyword "any" any

theorem isWord_of_test {c : Char} {cs : List Char} (hc : isWordStart c = true)
    (hcs : cs.all isWordPart = true) : IsWord (c :: cs) :=
  ⟨c, cs, rfl, hc, List.all_eq_true.mp hcs⟩

theorem Keyword.isWord {word : String} {t : TypeExpr} (h : Keyword word t) : IsWord word.toList := by
  cases h <;> exact isWord_of_test rfl rfl

theorem keyword_eq_some_iff {word : String} {t : TypeExpr} :
    keyword word = some t ↔ Keyword word t := by
  constructor
  · intro h
    unfold keyword at h
    split at h <;> simp only [Option.some.injEq, reduceCtorEq] at h <;> subst h <;> constructor
  · intro h
    cases h <;> rfl

theorem keyword_eq_none_iff {word : String} : keyword word = none ↔ ¬ ∃ t, Keyword word t := by
  simp only [← keyword_eq_some_iff, Option.eq_none_iff_forall_ne_some, not_exists, ne_eq]

/-! ## Placeholders and suffixes -/

/-- The names of embedded references: the prefix kept for them and digits. -/
def IsPlaceholder (w : List Char) : Prop :=
  ∃ digits, w = '$' :: 'R' :: 'e' :: 'f' :: digits ∧ digits ≠ [] ∧ ∀ d ∈ digits, d.isDigit = true

theorem placeholder_sound {name : String} {cs rest : List Char}
    (h : placeholder cs = some (name, rest)) :
    IsPlaceholder name.toList ∧ Spelled name.toList cs rest := by
  rw [placeholder] at h
  split at h
  · next r hr =>
    simp only [List.isEmpty_iff, Option.ite_none_left_eq_some, Option.some.injEq,
      Prod.mk.injEq] at h
    obtain ⟨hne, rfl, rfl⟩ := h
    refine ⟨⟨_, String.toList_ofList, hne, fun d hd => List.mem_takeWhile_imp hd⟩, ?_⟩
    rw [String.toList_ofList, spelled_iff rfl, hr]
    simp [List.takeWhile_append_dropWhile]
  · simp at h

theorem placeholder_complete {name : String} {cs rest : List Char} (hn : IsPlaceholder name.toList)
    (h : Spelled name.toList cs rest) (hr : WordBreak rest) :
    placeholder cs = some (name, rest) := by
  obtain ⟨digits, hw, hne, hall⟩ := hn
  have hd : ∀ c ∈ rest.head?, c.isDigit = false := by
    intro c hc
    have := hr c hc
    simp only [isWordPart, Char.isAlphanum, Bool.or_eq_false_iff] at this
    exact this.1.2
  rw [hw, spelled_iff rfl] at h
  rw [placeholder, h]
  simp only [List.cons_append, takeWhile_run hall hd, dropWhile_run hall hd,
    List.isEmpty_iff, hne, if_false, ← hw, String.ofList_toList]

def ArraySuffix (cs rest : List Char) : Prop :=
  ∃ blanks, (∀ c ∈ blanks, isBlank c = true) ∧ Spelled ('[' :: (blanks ++ [']'])) cs rest

theorem ArraySuffix.length_lt {cs rest : List Char} (h : ArraySuffix cs rest) :
    rest.length < cs.length := by
  obtain ⟨_, -, h⟩ := h
  exact h.length_lt

theorem arraySuffix_eq_some_iff {cs rest : List Char} {u : Unit} :
    arraySuffix cs = some (u, rest) ↔ ArraySuffix cs rest := by
  constructor
  · intro h
    rw [arraySuffix] at h
    split at h
    · next r hr =>
      split at h
      · next r' hr' =>
        simp only [Option.some.injEq, Prod.mk.injEq, true_and] at h
        subst h
        refine ⟨r.takeWhile isBlank, fun c hc => List.mem_takeWhile_imp hc, ?_⟩
        rw [spelled_iff rfl, hr, List.append_assoc, List.singleton_append, ← hr',
          List.takeWhile_append_dropWhile]
      · simp at h
    · simp at h
  · rintro ⟨blanks, hb, h⟩
    rw [spelled_iff rfl, List.append_assoc, List.singleton_append] at h
    have hd : (blanks ++ ']' :: rest).dropWhile isBlank = ']' :: rest :=
      dropWhile_run hb (by simp; decide)
    simp [arraySuffix, h, hd]

inductive Suffixes : Nat → List Char → List Char → Prop
  | zero {cs} : Suffixes 0 cs cs
  | succ {n cs r rest} : ArraySuffix cs r → Suffixes n r rest → Suffixes (n + 1) cs rest

theorem Suffixes.length_le {n : Nat} {cs rest : List Char} (h : Suffixes n cs rest) :
    rest.length ≤ cs.length := by
  induction h with
  | zero => exact le_rfl
  | succ h _ ih => exact ih.trans h.length_lt.le

end Grammar

end TypeGuard
