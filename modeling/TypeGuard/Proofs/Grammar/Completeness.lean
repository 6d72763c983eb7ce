import TypeGuard.Proofs.Grammar.Soundness

/-! # Completeness

Every phrase is read if what follows it is nothing or a character that may stand after it in a type
expression. A reader of types for shorter texts gives, rule by rule, a reader of types for longer
ones.
-/

namespace TypeGuard.Grammar

open Text TypeExpr

/-- Nothing follows in the text, or one of the characters. -/
def Ends (allowed : List Char) (rest : List Char) : Prop :=
  ∀ c ∈ ahead rest, c ∈ allowed

def closers : List Char :=
  [',', ';', ')', '>', ']', '}']

def afterIntersection : List Char :=
  '|' :: closers

def afterNullable : List Char :=
  '&' :: afterIntersection

def afterPrimary : List Char :=
  '[' :: afterNullable

/-- A reader of all phrases of the symbol in texts shorter than `n`. -/
def Complete (n : ℕ) (allowed : List Char) (s : Symbol) (p : Reader s.Value) : Prop :=
  ∀ cs v rest, Phrase s cs v rest → cs.length < n → Ends allowed rest → p cs = .ok (v, rest)

/-- A reader that finds nothing where a list ends. -/
def Idle {α : Type} (p : Reader α) : Prop :=
  ∀ cs c, ahead cs = some c → c ∈ closers → p.attempt cs = none

namespace Ends

variable {allowed rest : List Char}

theorem of_ahead {c : Char} (h : ahead rest = some c) (hc : c ∈ allowed) : Ends allowed rest := by
  intro d hd
  rw [h, Option.mem_some_iff] at hd
  exact hd ▸ hc

theorem cons (h : Ends allowed rest) (c : Char) : Ends (c :: allowed) rest :=
  fun d hd => List.mem_cons_of_mem c (h d hd)

theorem of_spelled {c : Char} {w r : List Char} (h : Spelled (c :: w) rest r)
    (hc : isGap c = false) (hm : c ∈ allowed) : Ends allowed rest :=
  of_ahead (h.ahead_eq hc) hm

theorem ne {c : Char} (h : Ends allowed rest) (hc : c ∉ allowed) : ahead rest ≠ some c :=
  fun hn => hc (h c hn)

theorem symbol_eq_none {c : Char} (h : Ends allowed rest) (hc : c ∉ allowed) :
    symbol c rest = none := by
  cases hr : ahead rest with
  | none =>
    have : skipGaps rest = [] := by simpa [ahead] using hr
    simp [symbol, this]
  | some d =>
    refine Grammar.symbol_eq_none hr ?_
    rintro rfl
    exact hc (h d hr)

/-- What may stand directly after a primary type is also what ends words and numbers. -/
theorem forall_head {P : Char → Prop} (h : Ends afterPrimary rest)
    (hP : ∀ c ∈ [' ', '\n', '\t', '\r'] ++ afterPrimary, P c) : ∀ c ∈ rest.head?, P c := by
  intro c hc
  by_cases hg : isGap c = true
  · exact hP c (List.mem_append_left _ (by simpa [isGap, or_assoc] using hg))
  · exact hP c (List.mem_append_right _ (h c (ahead_of_head? hc (by simpa using hg))))

theorem wordBreak (h : Ends afterPrimary rest) : WordBreak rest :=
  h.forall_head (List.all_iff_forall_prop.mp rfl)

theorem numeralBreak (h : Ends afterPrimary rest) : Numeral.Break rest :=
  h.forall_head (List.all_iff_forall_prop.mp rfl)

theorem head_ne_dollar (h : Ends afterPrimary rest) : rest.head? ≠ some '$' := by
  intro hd
  have hne : ∀ c ∈ rest.head?, c ≠ '$' := h.forall_head (List.all_iff_forall_prop.mp rfl)
  exact hne '$' hd rfl

end Ends

/-! ## Lists -/

theorem after_of_none {α : Type} {delimiter : Attempt Unit} {p : Reader α} {cs : List Char}
    (h : delimiter cs = none) : after delimiter p cs = none := by
  simp [after, h]

theorem elements_of_none {α : Type} {delimiter : Attempt Unit} {p : Reader α} {cs : List Char}
    (h : p.attempt cs = none) : elements delimiter p cs = ([], cs) := by
  unfold Reader.attempt at h
  cases hp : p cs with
  | error f => simp [elements, hp]
  | ok r => simp [hp, Except.toOption] at h

section Lists

variable {d : Delimiter} {delimiter : Attempt Unit} {s : Symbol} {p : Reader s.Value} {n : ℕ}
  {allowed : List Char}

theorem Complete.list (hd : ∀ cs rest, Delimits d cs rest → delimiter cs = some ((), rest))
    (ha : ∀ c ∈ d.chars, c ∈ allowed) (hp : Complete n allowed s p) {cs rest : List Char}
    {as : List s.Value} (h : Phrase (.list d s) cs as rest) (hn : cs.length < n)
    (hr : Ends allowed rest) (hstop : after delimiter p rest = none) :
    ∃ a r as', as = a :: as' ∧ r.length ≤ cs.length ∧ p cs = .ok (a, r) ∧
      Repeats (after delimiter p) r as' rest := by
  induction as generalizing cs with
  | nil => cases h
  | cons a as ih =>
    cases h with
    | single h => exact ⟨a, rest, [], rfl, h.length_le, hp _ _ _ h hn hr, .stop hstop⟩
    | @cons _ _ _ r₁ r₂ _ _ _ h₁ hdelim h₂ =>
      have hle := h₁.length_le
      have hlt := hdelim.length_lt
      obtain ⟨c, hc, hn₁⟩ := hdelim.ahead_eq
      obtain ⟨a', r, as', rfl, hlast, hread, hrep⟩ := ih h₂ (by omega)
      have hafter : after delimiter p r₁ = some (a', r) :=
        after_eq_some_iff.mpr ⟨(), r₂, hd _ _ hdelim, hread⟩
      exact ⟨a, r₁, _, rfl, hle, hp _ _ _ h₁ hn (.of_ahead hn₁ (ha c hc)),
        .step hafter (by omega) hrep⟩

theorem Complete.elements (hd : ∀ cs rest, Delimits d cs rest → delimiter cs = some ((), rest))
    (ha : ∀ c ∈ d.chars, c ∈ allowed) (hp : Complete n allowed s p) {cs rest : List Char}
    {as : List s.Value} (h : Phrase (.list d s) cs as rest) (hn : cs.length < n)
    (hr : Ends allowed rest) (hstop : after delimiter p rest = none) :
    Grammar.elements delimiter p cs = (as, rest) := by
  obtain ⟨a, r, as', rfl, -, hread, hrep⟩ := hp.list hd ha h hn hr hstop
  simp [Grammar.elements, hread, moreElements, hrep.many_eq]

end Lists

theorem Opens.ne {c d : Char} (h : Opens c) (hd : d ∈ ['|', '&', '?']) : c ≠ d := by
  have hopens : ∀ d ∈ ['|', '&', '?'], isWordStart d = false ∧ d.isDigit = false ∧
      d ∉ ['-', '"', '\'', '$', '(', '[', '{'] := List.all_iff_forall_prop.mp rfl
  obtain ⟨hword, hdigit, hpunct⟩ := hopens d hd
  rintro rfl
  rcases h with hw | hd | hp
  · simp [hword] at hw
  · simp [hdigit] at hd
  · exact hpunct hp

/-- A phrase begins with a delimiter or a mark only if its symbol may. -/
theorem Phrase.ahead_ne {s : Symbol} {cs v rest} (h : Phrase s cs v rest) (hs : s.Nonempty)
    {c : Char} (hc : c ∈ ['|', '&', '?']) (hm : c ∉ s.leads) : ahead cs ≠ some c := by
  intro hn
  obtain ⟨d, hd, hf⟩ := h.first hs
  obtain rfl := Option.some.inj (hn.symm.trans hd)
  rcases hf with hl | ho
  · exact hm hl
  · exact ho.ne hc rfl

theorem Phrase.symbol_eq_none {s : Symbol} {cs v rest} (h : Phrase s cs v rest) (hs : s.Nonempty)
    {c : Char} (hc : c ∈ ['|', '&', '?']) (hm : c ∉ s.leads) : symbol c cs = none := by
  obtain ⟨d, hd, -⟩ := h.first hs
  refine Grammar.symbol_eq_none hd ?_
  rintro rfl
  exact h.ahead_ne hs hc hm hd

/-! ## Tokens -/

theorem Spelled.symbol_eq {c : Char} {cs rest : List Char} (h : Spelled [c] cs rest)
    (hc : isGap c = false) : symbol c cs = some ((), rest) :=
  (symbol_eq_some_iff hc).mpr h

theorem Delimits.symbol_eq {d : Delimiter} {c : Char} (hd : d.chars = [c]) {cs rest : List Char}
    (h : Delimits d cs rest) : symbol c cs = some ((), rest) := by
  obtain ⟨e, he, h⟩ := h
  rw [hd, List.mem_singleton] at he
  subst he
  exact h.symbol_eq (d.isGap_eq_false e (by simp [hd]))

theorem Delimits.propertyDelimiter_eq {cs rest : List Char}
    (h : Delimits .commaOrSemicolon cs rest) : propertyDelimiter cs = some ((), rest) := by
  obtain ⟨c, hc, h⟩ := h
  simp only [Delimiter.chars, List.mem_cons, List.not_mem_nil, or_false] at hc
  rcases hc with rfl | rfl
  · simp [propertyDelimiter, h.symbol_eq rfl]
  · have hcomma : symbol ',' cs = none := symbol_eq_none (h.ahead_eq rfl) (by decide)
    simp [propertyDelimiter, hcomma, h.symbol_eq rfl]

theorem optional_symbol_eq {c : Char} (hc : isGap c = false) {cs r : List Char}
    (h : Maybe (Spelled [c]) cs r) (hr : ahead r ≠ some c) :
    Grammar.optional (symbol c) cs = r := by
  rcases h with rfl | h
  · refine optional_of_none ?_
    rw [Option.eq_none_iff_forall_ne_some]
    rintro ⟨u, rest⟩ hs
    exact hr (((symbol_eq_some_iff hc).mp hs).ahead_eq hc)
  · exact optional_of_some (h.symbol_eq hc)

theorem identifier_eq_none {c : Char} {cs : List Char} (h : ahead cs = some c)
    (hc : isWordStart c = false) : identifier cs = none := by
  rw [Option.eq_none_iff_forall_ne_some]
  rintro ⟨name, rest⟩ hi
  have := (identifier_eq_some_iff.mp hi).isWordStart_of_ahead h
  rw [hc] at this
  exact Bool.false_ne_true this

theorem paramName_eq_some_iff {cs rest : List Char} :
    paramName cs = some ((), rest) ↔ ParamName cs rest := by
  constructor
  · exact paramName_sound
  · rintro ⟨name, r, hw, hc⟩
    simp [paramName, identifier_eq_some_iff.mpr hw, hc.symbol_eq rfl]

theorem propertyKey_complete {key : String} {cs rest : List Char} (h : PropertyKey key cs rest) :
    propertyKey cs = some (key, rest) := by
  rcases h with h | h
  · simp [propertyKey, identifier_eq_some_iff.mpr h]
  · obtain ⟨c, hc, hq⟩ := h.ahead_eq
    have hword : isWordStart c = false := by rcases hq with rfl | rfl <;> decide
    simp [propertyKey, identifier_eq_none hc hword, quoted_eq_some_iff.mpr h]

theorem optionalMark_complete {marked : Bool} {cs rest : List Char}
    (h : OptionalMark marked cs rest) (hr : ahead rest = some ':') :
    (symbol '?' cs).isSome = marked ∧ Grammar.optional (symbol '?') cs = rest := by
  cases marked with
  | true =>
    have hs : symbol '?' cs = some ((), rest) := Spelled.symbol_eq h rfl
    exact ⟨by simp [hs], optional_of_some hs⟩
  | false =>
    obtain rfl : rest = cs := h
    have hs : symbol '?' rest = none := symbol_eq_none hr (by decide)
    exact ⟨by simp [hs], optional_of_none hs⟩

theorem numeral_complete {v : Literal} {cs rest : List Char} (h : NumberLiteral v cs rest)
    (hr : Numeral.Break rest) : numeral (skipGaps cs) = some (v, rest) := by
  obtain ⟨n, w, hw, rfl, hs⟩ := h
  obtain ⟨c, w', rfl, hc⟩ := hw.head
  have hg : isGap c = false := by
    rcases hc with rfl | hd
    · decide
    · exact isGap_eq_false_of_isWordPart (isWordPart_of_isDigit hd)
  rw [(spelled_iff hg).mp hs, ← List.cons_append, numeral, Numeral.scan_complete hw hr]
  rfl

theorem numeral_eq_none {cs : List Char} {c : Char} (h : ahead cs = some c)
    (hc : c ≠ '-' ∧ c.isDigit = false) : numeral (skipGaps cs) = none := by
  rw [Option.eq_none_iff_forall_ne_some]
  rintro ⟨v, rest⟩ hv
  obtain ⟨d, hd, hd'⟩ := (numeral_sound hv).ahead_eq
  obtain rfl := Option.some.inj (h.symm.trans hd)
  exact hd'.elim hc.1 (by simp [hc.2])

theorem quoted_eq_none {cs : List Char} {c : Char} (h : ahead cs = some c)
    (hc : c ≠ '"' ∧ c ≠ '\'') : quoted cs = none := by
  rw [Option.eq_none_iff_forall_ne_some]
  rintro ⟨s, rest⟩ hq
  obtain ⟨d, hd, hd'⟩ := (quoted_eq_some_iff.mp hq).ahead_eq
  obtain rfl := Option.some.inj (h.symm.trans hd)
  exact hd'.elim hc.1 hc.2

theorem placeholder_eq_none {cs : List Char} {c : Char} (h : ahead cs = some c) (hc : c ≠ '$') :
    placeholder cs = none := by
  rw [Option.eq_none_iff_forall_ne_some]
  rintro ⟨name, rest⟩ hp
  obtain ⟨hn, hs⟩ := placeholder_sound hp
  exact hc (Option.some.inj (h.symm.trans (placeholder_ahead hn hs)))

theorem skipGaps_skipGaps (cs : List Char) : skipGaps (skipGaps cs) = skipGaps cs :=
  List.dropWhile_idempotent isGap cs

theorem quoted_skipGaps (cs : List Char) : quoted (skipGaps cs) = quoted cs := by
  rw [quoted, quoted, skipGaps_skipGaps]

theorem placeholder_skipGaps (cs : List Char) : placeholder (skipGaps cs) = placeholder cs := by
  rw [placeholder, placeholder, skipGaps_skipGaps]

theorem require_of_some {α : Type} {p : Attempt α} {e : Expectation} {cs rest : List Char} {a : α}
    (h : p cs = some (a, rest)) : require p e cs = .ok (a, rest) :=
  require_eq_ok_iff.mpr h

theorem Spelled.require_eq {c : Char} {e : Expectation} {cs rest : List Char}
    (h : Spelled [c] cs rest) (hc : isGap c = false) :
    require (symbol c) e cs = .ok ((), rest) :=
  require_of_some (h.symbol_eq hc)

theorem Suffixes.ends {n : ℕ} {cs rest : List Char} (h : Suffixes n cs rest)
    (hr : Ends afterNullable rest) : Ends afterPrimary cs := by
  cases h with
  | zero => exact hr.cons '['
  | succ h _ => exact .of_ahead h.ahead_eq (by decide)

theorem Suffixes.repeats {n : ℕ} {cs rest : List Char} (h : Suffixes n cs rest)
    (hr : Ends afterNullable rest) : Repeats arraySuffix cs (List.replicate n ()) rest := by
  induction h with
  | @zero cs =>
    refine .stop ?_
    rw [Option.eq_none_iff_forall_ne_some]
    rintro ⟨u, r⟩ hs
    exact hr.ne (by decide) (arraySuffix_eq_some_iff.mp hs).ahead_eq
  | succ h _ ih => exact .step (arraySuffix_eq_some_iff.mpr h) h.length_lt (ih hr)

/-! ## Rules -/

section Rules

variable {type : Reader TypeExpr} {n : ℕ}

theorem property_idle : Idle (Grammar.property type) := by
  intro cs c hc hm
  have hword : ∀ c ∈ closers, isWordStart c = false := List.all_iff_forall_prop.mp rfl
  have hquote : ∀ c ∈ closers, c ≠ '"' ∧ c ≠ '\'' := List.all_iff_forall_prop.mp rfl
  have hkey : propertyKey cs = none := by
    rw [propertyKey, identifier_eq_none hc (hword c hm), quoted_eq_none hc (hquote c hm)]
  simp [Reader.attempt, Grammar.property, require, hkey, bind, Except.bind, Except.toOption]

theorem primary_word {name : String} {cs rest : List Char} (h : Word name cs rest) :
    primary type cs = .ok (wordType type name rest) := by
  obtain ⟨c, w, hw, hc, hall⟩ := h.isWord
  have hne : c ≠ '[' ∧ c ≠ '{' ∧ c ≠ '(' := by
    refine ⟨?_, ?_, ?_⟩ <;> (rintro rfl; exact absurd hc (by decide))
  have htake : (w ++ rest).takeWhile isWordPart = w := takeWhile_run hall h.wordBreak
  have hdrop : (w ++ rest).dropWhile isWordPart = rest := dropWhile_run hall h.wordBreak
  rw [primary, h.skipGaps_eq, hw]
  simp only [List.cons_append, hne, hc, if_true, if_false, htake, hdrop]
  rw [← hw, String.ofList_toList]

theorem arrayArgument_eq_error (type : Reader TypeExpr) {cs : List Char} (h : symbol '<' cs = none) :
    ∃ f, arrayArgument type cs = .error f := by
  simp [arrayArgument, require, h, bind, Except.bind]

theorem primary_name {name : String} {cs rest : List Char} (h : Word name cs rest)
    (hk : keyword name = none) (hr : Ends afterPrimary rest) :
    primary type cs = .ok (named name, rest) := by
  rw [primary_word h, wordType, if_neg hr.head_ne_dollar]
  split
  · obtain ⟨f, hf⟩ := arrayArgument_eq_error type (hr.symbol_eq_none (by decide))
    rw [hf]
  · rw [hk, Option.getD_none]

theorem primary_keyword {word : String} {cs rest : List Char} {t : TypeExpr} (h : Word word cs rest)
    (hk : Keyword word t) (hr : Ends afterPrimary rest) : primary type cs = .ok (t, rest) := by
  have hne : word ≠ "Array" := by
    rintro rfl
    exact absurd (keyword_eq_some_iff.mpr hk) (by simp [keyword])
  rw [primary_word h, wordType, if_neg hr.head_ne_dollar, if_neg hne,
    keyword_eq_some_iff.mpr hk, Option.getD_some]

/-- A token that is neither a word nor a bracket, without gaps before it. -/
def atom : Reader TypeExpr := fun cs =>
  match numeral cs with
  | some (v, rest) => .ok (literal v, rest)
  | none =>
    match quoted cs with
    | some (s, rest) => .ok (literal (.str s), rest)
    | none =>
      match placeholder cs with
      | some (name, rest) => .ok (named name, rest)
      | none => .error ⟨cs.length, .type⟩

theorem primary_eq_atom {cs : List Char} {c : Char} (h : ahead cs = some c)
    (hc : c ∉ ['[', '{', '(']) (hw : isWordStart c = false) :
    primary type cs = atom (skipGaps cs) := by
  unfold ahead at h
  cases hs : skipGaps cs with
  | nil => simp [hs] at h
  | cons d r =>
    obtain rfl : d = c := by simpa [hs] using h
    simp only [List.mem_cons, List.not_mem_nil, or_false, not_or] at hc
    simp only [primary, hs, hc, hw, if_false, Bool.false_eq_true]
    rfl

theorem primary_idle : Idle (primary type) := by
  intro cs c hc hm
  have hclosers : ∀ c ∈ closers, c ∉ ['[', '{', '('] ∧ isWordStart c = false ∧
      (c ≠ '-' ∧ c.isDigit = false) ∧ (c ≠ '"' ∧ c ≠ '\'') ∧ c ≠ '$' :=
    List.all_iff_forall_prop.mp rfl
  obtain ⟨hopen, hword, hnumber, hquote, hdollar⟩ := hclosers c hm
  rw [Reader.attempt, primary_eq_atom hc hopen hword, atom, numeral_eq_none hc hnumber,
    quoted_skipGaps, quoted_eq_none hc hquote, placeholder_skipGaps,
    placeholder_eq_none hc hdollar]
  rfl
theorem primary_number {v : Literal} {cs rest : List Char} (h : NumberLiteral v cs rest)
    (hr : Ends afterPrimary rest) : primary type cs = .ok (literal v, rest) := by
  obtain ⟨c, hc, hd⟩ := h.ahead_eq
  have hbrackets : ∀ c ∈ ['[', '{', '('], c ≠ '-' ∧ c.isDigit = false :=
    List.all_iff_forall_prop.mp rfl
  have hopen : c ∉ ['[', '{', '('] := by
    intro hm
    rcases hd with rfl | hd
    · exact (hbrackets _ hm).1 rfl
    · simp [(hbrackets c hm).2] at hd
  have hword : isWordStart c = false := by
    rcases hd with rfl | hd
    · decide
    · exact isWordStart_of_isDigit hd
  rw [primary_eq_atom hc hopen hword, atom, numeral_complete h hr.numeralBreak]

theorem primary_string {s : String} {cs rest : List Char} (h : Quoted s cs rest) :
    primary type cs = .ok (literal (.str s), rest) := by
  obtain ⟨c, hc, hq⟩ := h.ahead_eq
  have hchars : c ∉ ['[', '{', '('] ∧ isWordStart c = false ∧ c ≠ '-' ∧ c.isDigit = false := by
    rcases hq with rfl | rfl <;> decide
  obtain ⟨hopen, hword, hnumber⟩ := hchars
  rw [primary_eq_atom hc hopen hword, atom, numeral_eq_none hc hnumber, quoted_skipGaps,
    quoted_eq_some_iff.mpr h]

theorem primary_placeholder {name : String} {cs rest : List Char}
    (hn : IsPlaceholder name.toList) (h : Spelled name.toList cs rest)
    (hr : Ends afterPrimary rest) : primary type cs = .ok (named name, rest) := by
  have hc := placeholder_ahead hn h
  rw [primary_eq_atom hc (by decide) rfl, atom, numeral_eq_none hc (by decide),
    quoted_skipGaps, quoted_eq_none hc (by decide), placeholder_skipGaps,
    placeholder_complete hn h hr.wordBreak]

theorem skipGaps_of_spelled {c : Char} {cs rest : List Char} (h : Spelled [c] cs rest)
    (hc : isGap c = false) : skipGaps cs = c :: rest := by
  rw [spelled_iff hc] at h
  exact h

/-- What a reader of types owes to those of the types around it. -/
structure Serves (n : ℕ) (type : Reader TypeExpr) : Prop where
  complete : Complete n closers .type type
  idle : Idle type

variable (H : Serves n type)

include H

theorem param_complete : Complete n closers .param (param type) := by
  intro cs t rest h hn hr
  cases h with
  | @param _ r _ _ hname ht =>
    rcases hname with rfl | hname
    · have hnone : paramName r = none := by
        rw [Option.eq_none_iff_forall_ne_some]
        rintro ⟨u, r'⟩ hname
        obtain ⟨name, r'', hw, hc⟩ := paramName_sound hname
        exact ht.ahead_after_word trivial hw (hr.ne (by decide)) (hc.ahead_eq rfl)
      rw [param, optional_of_none hnone]
      exact H.complete _ _ _ ht hn hr
    · rw [param, optional_of_some (paramName_eq_some_iff.mpr hname)]
      exact H.complete _ _ _ ht (hname.length_lt.trans hn) hr

theorem param_idle : Idle (param type) := by
  intro cs c hc hm
  have hword : ∀ c ∈ closers, isWordStart c = false := List.all_iff_forall_prop.mp rfl
  have hnone : paramName cs = none := by
    simp [paramName, identifier_eq_none hc (hword c hm)]
  rw [Reader.attempt, param, optional_of_none hnone]
  exact H.idle cs c hc hm

theorem property_complete : Complete n closers .property (Grammar.property type) := by
  intro cs v rest h hn hr
  cases h with
  | property hkey hmark hcolon ht =>
    have := hkey.length_lt
    have := hmark.length_le
    have := hcolon.length_lt
    have hread := H.complete _ _ _ ht (by omega) hr
    obtain ⟨hm, ho⟩ := optionalMark_complete hmark (hcolon.ahead_eq rfl)
    refine bind_eq_ok_iff.mpr ⟨_, require_of_some (propertyKey_complete hkey), ?_⟩
    simp only [hm, ho]
    refine bind_eq_ok_iff.mpr ⟨_, hcolon.require_eq rfl, ?_⟩
    exact bind_eq_ok_iff.mpr ⟨_, hread, rfl⟩

theorem primary_array {cs r₁ r₂ r₃ rest : List Char} {t : TypeExpr} (hw : Word "Array" cs r₁)
    (hopen : Spelled ['<'] r₁ r₂) (h : Phrase .type r₂ t r₃) (hclose : Spelled ['>'] r₃ rest)
    (hn : r₂.length < n) : primary type cs = .ok (array t, rest) := by
  have hd : r₁.head? ≠ some '$' := by
    intro hd
    have := (ahead_of_head? hd rfl).symm.trans (hopen.ahead_eq rfl)
    simp at this
  have hread : arrayArgument type r₁ = .ok (array t, rest) := by
    have ht := H.complete _ _ _ h hn (.of_spelled hclose rfl (by decide))
    refine bind_eq_ok_iff.mpr ⟨_, hopen.require_eq rfl, ?_⟩
    refine bind_eq_ok_iff.mpr ⟨_, ht, ?_⟩
    exact bind_eq_ok_iff.mpr ⟨_, hclose.require_eq rfl, rfl⟩
  rw [primary_word hw, wordType, if_neg hd, if_pos rfl, hread]

theorem closeGroup_complete {cs r rest : List Char} {t : TypeExpr} (h : Phrase .type cs t r)
    (hclose : Spelled [')'] r rest) (hn : cs.length < n) :
    closeGroup (type cs) = .ok (t, rest) := by
  have ht := H.complete _ _ _ h hn (.of_spelled hclose rfl (by decide))
  refine bind_eq_ok_iff.mpr ⟨_, ht, ?_⟩
  exact bind_eq_ok_iff.mpr ⟨_, hclose.require_eq rfl, rfl⟩

omit H in
theorem elements_complete {s : Symbol} {p : Reader s.Value} {c : Char} {cs r rest : List Char}
    {vs : List s.Value} (hp : Complete n closers s p) (hidle : Idle p)
    (h : Phrase (.optional .comma s) cs vs r) (hclose : Spelled [c] r rest)
    (hc : c ∈ [')', ']']) (hn : cs.length < n) : elements (symbol ',') p cs = (vs, r) := by
  have hchars : ∀ c ∈ [')', ']'], isGap c = false ∧ c ∈ closers ∧ c ≠ ',' :=
    List.all_iff_forall_prop.mp rfl
  obtain ⟨hg, hm, hne⟩ := hchars c hc
  have hn' := hclose.ahead_eq hg
  cases h with
  | absent => exact elements_of_none (hidle _ _ hn' hm)
  | present h =>
    have hcomma : ∀ d ∈ Delimiter.chars .comma, d ∈ closers := List.all_iff_forall_prop.mp rfl
    exact hp.elements (fun _ _ => Delimits.symbol_eq rfl) hcomma h hn (.of_ahead hn' hm)
      (after_of_none (symbol_eq_none hn' hne))

theorem tupleBody_complete {cs r rest : List Char} {ts : List TypeExpr}
    (h : Phrase (.optional .comma .type) cs ts r) (hclose : Spelled [']'] r rest)
    (hn : cs.length < n) : tupleBody type cs = .ok (tuple ts, rest) := by
  have hts := elements_complete H.complete H.idle h hclose (by decide) hn
  simp only [tupleBody, hts]
  exact bind_eq_ok_iff.mpr ⟨_, hclose.require_eq rfl, rfl⟩

omit H in
theorem emptyObjectBody_complete {cs rest : List Char} (hclose : Spelled ['}'] cs rest) :
    objectBody type cs = .ok (object [], rest) := by
  have hps : elements propertyDelimiter (Grammar.property type) cs = ([], cs) :=
    elements_of_none (property_idle _ _ (hclose.ahead_eq rfl) (by decide))
  simp only [objectBody, hps]
  exact bind_eq_ok_iff.mpr ⟨_, hclose.require_eq rfl, rfl⟩

theorem objectBody_complete {cs r₁ r₂ rest : List Char} {ps : List (Property TypeExpr)}
    (h : Phrase (.list .commaOrSemicolon .property) cs ps r₁)
    (hlast : Maybe (Delimits .commaOrSemicolon) r₁ r₂) (hclose : Spelled ['}'] r₂ rest)
    (hn : cs.length < n) : objectBody type cs = .ok (object ps, rest) := by
  have hc := hclose.ahead_eq rfl
  have hne : ps ≠ [] := by
    rintro rfl
    cases h
  have hdelimiters : ∀ d ∈ Delimiter.chars .commaOrSemicolon, d ∈ closers :=
    List.all_iff_forall_prop.mp rfl
  have hends : Ends closers r₁ ∧ optional propertyDelimiter r₁ = r₂ ∧
      after propertyDelimiter (Grammar.property type) r₁ = none := by
    rcases hlast with rfl | hlast
    · have hnone : propertyDelimiter r₂ = none := by
        simp [propertyDelimiter, symbol_eq_none hc]
      exact ⟨.of_ahead hc (by decide), optional_of_none hnone, after_of_none hnone⟩
    · have hsome := hlast.propertyDelimiter_eq
      obtain ⟨d, hd, hn₁⟩ := hlast.ahead_eq
      refine ⟨.of_ahead hn₁ (hdelimiters d hd), optional_of_some hsome, ?_⟩
      simp only [after, hsome]
      exact property_idle _ _ hc (by decide)
  obtain ⟨hr, hoptional, hstop⟩ := hends
  have hps : elements propertyDelimiter (Grammar.property type) cs = (ps, r₁) :=
    (property_complete H).elements (fun _ _ => Delimits.propertyDelimiter_eq) hdelimiters h hn hr
      hstop
  simp only [objectBody, hps, List.isEmpty_iff, hne, if_false, hoptional]
  exact bind_eq_ok_iff.mpr ⟨_, hclose.require_eq rfl, rfl⟩

theorem primary_complete : Complete (n + 1) afterPrimary .primary (primary type) := by
  intro cs t rest h hn hr
  cases h with
  | keyword hw hk => exact primary_keyword hw hk hr
  | number h => exact primary_number h hr
  | string h => exact primary_string h
  | placeholder hw h => exact primary_placeholder hw h hr
  | name hw hk => exact primary_name hw (keyword_eq_none_iff.mpr hk) hr
  | arrayOf hw hopen ht hclose =>
    have := hw.length_lt
    have := hopen.length_lt
    exact primary_array H hw hopen ht hclose (by omega)
  | group hopen ht hclose =>
    have := hopen.length_lt
    simp only [primary, skipGaps_of_spelled hopen rfl]
    exact closeGroup_complete H ht hclose (by omega)
  | tuple hopen ht hclose =>
    have := hopen.length_lt
    simp only [primary, skipGaps_of_spelled hopen rfl]
    exact tupleBody_complete H ht hclose (by omega)
  | emptyObject hopen hclose =>
    simp only [primary, skipGaps_of_spelled hopen rfl]
    exact emptyObjectBody_complete hclose
  | object hopen hps hlast hclose =>
    have := hopen.length_lt
    simp only [primary, skipGaps_of_spelled hopen rfl]
    exact objectBody_complete H hps hlast hclose (by omega)

theorem postfixType_complete : Complete (n + 1) afterNullable .suffixed (postfixType type) := by
  intro cs t rest h hn hr
  cases h with
  | @suffixed k _ r t _ h hs =>
    have hrep := hs.repeats hr
    have ht := primary_complete H _ _ _ h hn (hs.ends hr)
    refine bind_eq_ok_iff.mpr ⟨_, ht, ?_⟩
    simp [suffixes, hrep.many_eq, List.foldl_const, pure, Except.pure]

theorem prefixType_complete : Complete (n + 1) afterNullable .nullable (prefixType type) := by
  intro cs t rest h hn hr
  -- Every mark takes a character.
  induction hk : cs.length using Nat.strong_induction_on generalizing cs t with
  | _ k ih =>
    subst hk
    cases h with
    | nullable hmark h =>
      have hlt := hmark.length_lt
      exact prefixType_mark hmark (ih _ hlt _ _ h (by omega) rfl)
    | ofSuffixed h =>
      have hmarks : many (symbol '?') cs = ([], cs) :=
        many_of_none (h.symbol_eq_none trivial (by decide) (by decide))
      have ht := postfixType_complete H _ _ _ h hn hr
      rw [prefixType, hmarks]
      exact bind_eq_ok_iff.mpr ⟨_, ht, rfl⟩

theorem intersectionType_complete :
    Complete (n + 1) afterIntersection .intersection (intersectionType type) := by
  intro cs t rest h hn hr
  cases h with
  | intersection hlead h =>
    have hle := hlead.length_le Spelled.length_lt
    have hchars : ∀ c ∈ Delimiter.chars .ampersand, c ∈ afterNullable :=
      List.all_iff_forall_prop.mp rfl
    obtain ⟨t, r, ts, rfl, -, hread, hrep⟩ := (prefixType_complete H).list
      (fun _ _ => Delimits.symbol_eq rfl) hchars h (by omega) (hr.cons '&')
      (after_of_none (hr.symbol_eq_none (by decide)))
    rw [intersectionType,
      optional_symbol_eq rfl hlead (h.ahead_ne trivial (by decide) (by decide))]
    refine bind_eq_ok_iff.mpr ⟨_, hread, ?_⟩
    simp [intersectionRest, moreElements, hrep.many_eq, pure, Except.pure]

theorem unionType_complete : Complete (n + 1) closers .union (unionType type) := by
  intro cs t rest h hn hr
  cases h with
  | union hlead h =>
    have hle := hlead.length_le Spelled.length_lt
    have hchars : ∀ c ∈ Delimiter.chars .bar, c ∈ afterIntersection :=
      List.all_iff_forall_prop.mp rfl
    obtain ⟨t, r, ts, rfl, -, hread, hrep⟩ := (intersectionType_complete H).list
      (fun _ _ => Delimits.symbol_eq rfl) hchars h (by omega) (hr.cons '|')
      (after_of_none (hr.symbol_eq_none (by decide)))
    rw [unionType,
      optional_symbol_eq rfl hlead (h.ahead_ne trivial (by decide) (by decide))]
    refine bind_eq_ok_iff.mpr ⟨_, hread, ?_⟩
    simp [unionRest, moreElements, hrep.many_eq, pure, Except.pure]

theorem functionType_complete : Complete (n + 1) closers .function (functionType type) := by
  intro cs t rest h hn hr
  cases h with
  | function hopen hps hclose harrow ht =>
    have := hopen.length_lt
    have := hps.length_le
    have := hclose.length_lt
    have := harrow.length_lt
    have hread := H.complete _ _ _ ht (by omega) hr
    have hps' := elements_complete (param_complete H) (param_idle H) hps hclose (by decide)
      (by omega)
    refine bind_eq_ok_iff.mpr ⟨_, hopen.require_eq rfl, ?_⟩
    simp only [hps']
    refine bind_eq_ok_iff.mpr ⟨_, hclose.require_eq rfl, ?_⟩
    refine bind_eq_ok_iff.mpr ⟨((), _), require_of_some (arrow_eq_some_iff.mpr harrow), ?_⟩
    exact bind_eq_ok_iff.mpr ⟨_, hread, rfl⟩

theorem functionType_ne_ok {cs rest : List Char} {t : TypeExpr} (h : Phrase .union cs t rest)
    (hn : cs.length < n + 1) (hr : Ends closers rest) (r : TypeExpr × List Char) :
    functionType type cs ≠ .ok r := by
  intro hf
  obtain ⟨⟨_, r₁⟩, ho, hf⟩ := bind_eq_ok_iff.mp hf
  have hcs := (require_symbol rfl ho).ahead_eq rfl
  obtain ⟨r₁', t', r₂, r₃, hopen, ht, hclose, hne⟩ :=
    h.group_of_paren trivial hcs (hr.ne (by decide))
  have hlt := hopen.length_lt
  obtain rfl : r₁' = r₁ := by
    simpa using (hopen.require_eq rfl).symm.trans ho
  have hps : elements (symbol ',') (param type) r₁' = ([t'], r₂) :=
    elements_complete (param_complete H) (param_idle H) (.present (.single (.param (.inl rfl) ht)))
      hclose (by decide) (by omega)
  simp only [hps] at hf
  obtain ⟨⟨_, r₃'⟩, hc, hf⟩ := bind_eq_ok_iff.mp hf
  obtain rfl : r₃ = r₃' := by
    simpa using (hclose.require_eq rfl).symm.trans hc
  obtain ⟨⟨_, r₄⟩, ha, -⟩ := bind_eq_ok_iff.mp hf
  have harrow := arrow_eq_some_iff.mp (require_eq_ok_iff.mp ha)
  exact hne (harrow.ahead_eq rfl)

theorem typeLevel_complete : Complete (n + 1) closers .type (typeLevel type) := by
  intro cs t rest h hn hr
  rw [typeLevel_eq_ok_iff]
  cases h with
  | ofFunction h => exact .inl (functionType_complete H _ _ _ h hn hr)
  | ofUnion h =>
    exact .inr ⟨functionType_ne_ok H h hn hr, unionType_complete H _ _ _ h hn hr⟩

omit H in
theorem typeLevel_idle : Idle (typeLevel type) := by
  intro cs c hc hm
  have hne : ∀ c ∈ closers, c ≠ '(' ∧ c ≠ '|' ∧ c ≠ '&' ∧ c ≠ '?' := List.all_iff_forall_prop.mp rfl
  obtain ⟨hparen, hbar, hampersand, hmark⟩ := hne c hm
  have hidle : (primary type).attempt cs = none := primary_idle cs c hc hm
  cases hp : primary type cs with
  | ok r => simp [Reader.attempt, Except.toOption, hp] at hidle
  | error f =>
    simp [Reader.attempt, Except.toOption, typeLevel, unionType, intersectionType, prefixType,
      postfixType, symbol_eq_none hc hparen, optional_of_none (symbol_eq_none hc hbar),
      optional_of_none (symbol_eq_none hc hampersand), many_of_none (symbol_eq_none hc hmark),
      hp, bind, Except.bind]

end Rules

theorem parseUpTo_serves (depth : ℕ) : Serves depth (parseUpTo depth) := by
  induction depth with
  | zero => exact ⟨fun _ _ _ _ h => absurd h (Nat.not_lt_zero _), fun _ _ _ _ => rfl⟩
  | succ depth ih => exact ⟨typeLevel_complete ih, typeLevel_idle⟩

end TypeGuard.Grammar
