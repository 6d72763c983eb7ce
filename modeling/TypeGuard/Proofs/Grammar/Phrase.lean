import TypeGuard.Proofs.Grammar.Quotation
import TypeGuard.Proofs.Number.Spelling

/-! # The grammar

Derivations of type expressions, one constructor for each production. A phrase is a part of a text
with what follows it; the choices between productions are free and repetitions may stop anywhere.
-/

namespace TypeGuard.Grammar

open Text TypeExpr

/-! ## Terminals -/

def Maybe (token : List Char → List Char → Prop) (cs rest : List Char) : Prop :=
  rest = cs ∨ token cs rest

/-- What separates the elements of a list; the properties of an object type have a choice. -/
inductive Delimiter where
  | comma
  | commaOrSemicolon
  | bar
  | ampersand

def Delimiter.chars : Delimiter → List Char
  | comma => [',']
  | commaOrSemicolon => [',', ';']
  | bar => ['|']
  | ampersand => ['&']

theorem Delimiter.isGap_eq_false (d : Delimiter) : ∀ c ∈ d.chars, isGap c = false := by
  cases d <;> exact List.all_iff_forall_prop.mp rfl

def Delimits (d : Delimiter) (cs rest : List Char) : Prop :=
  ∃ c ∈ d.chars, Spelled [c] cs rest

def NumberLiteral (v : Literal) (cs rest : List Char) : Prop :=
  ∃ (n : Numeral) (w : List Char), n.Spelling w ∧ v = n.literal ∧ Spelled w cs rest

def ParamName (cs rest : List Char) : Prop :=
  ∃ name r, Word name cs r ∧ Spelled [':'] r rest

/-- The key of a property: any word, keywords included, or a quoted text. -/
def PropertyKey (key : String) (cs rest : List Char) : Prop :=
  Word key cs rest ∨ Quoted key cs rest

def OptionalMark (marked : Bool) (cs rest : List Char) : Prop :=
  if marked then Spelled ['?'] cs rest else rest = cs

/-! ## Nonterminals and productions -/

inductive Symbol where
  | type
  | function
  | param
  | union
  | intersection
  | nullable
  | suffixed
  | primary
  | property
  | list (d : Delimiter) (item : Symbol)
  | optional (d : Delimiter) (item : Symbol)

@[reducible] def Symbol.Value : Symbol → Type
  | property => Property TypeExpr
  | list _ item => List item.Value
  | optional _ item => List item.Value
  | _ => TypeExpr

/-- A text that begins with a phrase of the symbol, the value of the phrase, and the text after it.
-/
inductive Phrase : (s : Symbol) → List Char → s.Value → List Char → Prop
  -- type := function | union
  | ofFunction {cs t rest} : Phrase .function cs t rest → Phrase .type cs t rest
  | ofUnion {cs t rest} : Phrase .union cs t rest → Phrase .type cs t rest
  -- function := "(" [param ("," param)*] ")" "=>" type
  | function {cs r₁ r₂ r₃ r₄ rest ps t} : Spelled ['('] cs r₁ →
      Phrase (.optional .comma .param) r₁ ps r₂ → Spelled [')'] r₂ r₃ → Spelled ['=', '>'] r₃ r₄ →
      Phrase .type r₄ t rest → Phrase .function cs (TypeExpr.function ps t) rest
  -- param := [word ":"] type
  | param {cs r t rest} : Maybe ParamName cs r → Phrase .type r t rest → Phrase .param cs t rest
  -- union := ["|"] intersection ("|" intersection)*
  | union {cs r ts rest} : Maybe (Spelled ['|']) cs r → Phrase (.list .bar .intersection) r ts rest →
      Phrase .union cs (foldMembers TypeExpr.union ts) rest
  -- intersection := ["&"] nullable ("&" nullable)*
  | intersection {cs r ts rest} : Maybe (Spelled ['&']) cs r →
      Phrase (.list .ampersand .nullable) r ts rest →
      Phrase .intersection cs (foldMembers TypeExpr.intersection ts) rest
  -- nullable := "?" nullable | suffixed
  | nullable {cs r t rest} : Spelled ['?'] cs r → Phrase .nullable r t rest →
      Phrase .nullable cs (TypeExpr.nullable t) rest
  | ofSuffixed {cs t rest} : Phrase .suffixed cs t rest → Phrase .nullable cs t rest
  -- suffixed := primary ("[" "]")*
  | suffixed {n cs r t rest} : Phrase .primary cs t r → Suffixes n r rest →
      Phrase .suffixed cs (TypeExpr.array^[n] t) rest
  -- primary := keyword | number | quoted text | placeholder | name
  | keyword {cs w t rest} : Word w cs rest → Keyword w t → Phrase .primary cs t rest
  | number {cs v rest} : NumberLiteral v cs rest → Phrase .primary cs (literal v) rest
  | string {cs s rest} : Quoted s cs rest → Phrase .primary cs (literal (.str s)) rest
  | placeholder {cs name rest} : IsPlaceholder name.toList → Spelled name.toList cs rest →
      Phrase .primary cs (named name) rest
  | name {cs name rest} : Word name cs rest → (¬ ∃ t, Keyword name t) →
      Phrase .primary cs (named name) rest
  -- | "Array" "<" type ">" | "(" type ")" | "[" [type ("," type)*] "]"
  | arrayOf {cs r₁ r₂ r₃ t rest} : Word "Array" cs r₁ → Spelled ['<'] r₁ r₂ →
      Phrase .type r₂ t r₃ → Spelled ['>'] r₃ rest → Phrase .primary cs (TypeExpr.array t) rest
  | group {cs r₁ r₂ t rest} : Spelled ['('] cs r₁ → Phrase .type r₁ t r₂ → Spelled [')'] r₂ rest →
      Phrase .primary cs t rest
  | tuple {cs r₁ r₂ ts rest} : Spelled ['['] cs r₁ → Phrase (.optional .comma .type) r₁ ts r₂ →
      Spelled [']'] r₂ rest → Phrase .primary cs (TypeExpr.tuple ts) rest
  -- | "{" "}" | "{" property (("," | ";") property)* ["," | ";"] "}"
  | emptyObject {cs r rest} : Spelled ['{'] cs r → Spelled ['}'] r rest →
      Phrase .primary cs (TypeExpr.object []) rest
  | object {cs r₁ r₂ r₃ ps rest} : Spelled ['{'] cs r₁ →
      Phrase (.list .commaOrSemicolon .property) r₁ ps r₂ →
      Maybe (Delimits .commaOrSemicolon) r₂ r₃ → Spelled ['}'] r₃ rest →
      Phrase .primary cs (TypeExpr.object ps) rest
  -- property := (word | quoted text) ["?"] ":" type
  | property {cs r₁ r₂ r₃ key marked t rest} : PropertyKey key cs r₁ → OptionalMark marked r₁ r₂ →
      Spelled [':'] r₂ r₃ → Phrase .type r₃ t rest → Phrase .property cs ⟨key, marked, t⟩ rest
  -- list := item (delimiter item)*, optional := [list]
  | single {d s cs a rest} : Phrase s cs a rest → Phrase (.list d s) cs [a] rest
  | cons {d s cs r₁ r₂ a as rest} : Phrase s cs a r₁ → Delimits d r₁ r₂ →
      Phrase (.list d s) r₂ as rest → Phrase (.list d s) cs (a :: as) rest
  | absent {d s cs} : Phrase (.optional d s) cs [] cs
  | present {d s cs as rest} : Phrase (.list d s) cs as rest → Phrase (.optional d s) cs as rest

/-- The whole text is a type expression with the given tree. -/
def Derives (cs : List Char) (t : TypeExpr) : Prop :=
  ∃ rest, Phrase .type cs t rest ∧ ∀ c ∈ rest, isGap c = true

/-! ## Where phrases begin and end -/

def ahead (cs : List Char) : Option Char :=
  (skipGaps cs).head?

theorem ahead_of_head? {cs : List Char} {c : Char} (h : cs.head? = some c) (hc : isGap c = false) :
    ahead cs = some c := by
  cases cs with
  | nil => simp at h
  | cons d ds =>
    obtain rfl : d = c := by simpa using h
    simp [ahead, skipGaps, hc]

theorem Spelled.ahead_eq {c : Char} {w cs rest : List Char} (h : Spelled (c :: w) cs rest)
    (hc : isGap c = false) : ahead cs = some c := by
  rw [ahead, (spelled_iff hc).mp h, List.head?_cons]

theorem Word.ahead_eq {name : String} {cs rest : List Char} (h : Word name cs rest) :
    ∃ c, isWordStart c = true ∧ ahead cs = some c := by
  obtain ⟨c, w, hw, hc, -⟩ := h.isWord
  refine ⟨c, hc, ?_⟩
  rw [ahead, h.skipGaps_eq, hw, List.cons_append, List.head?_cons]

theorem Word.isWordStart_of_ahead {name : String} {cs rest : List Char} {c : Char}
    (h : Word name cs rest) (hc : ahead cs = some c) : isWordStart c = true := by
  obtain ⟨d, hd, hn⟩ := h.ahead_eq
  rwa [Option.some.inj (hc.symm.trans hn)]

theorem Word.not_spelled {name : String} {c : Char} {w cs r r' : List Char} (h : Word name cs r)
    (hs : Spelled (c :: w) cs r') (hg : isGap c = false) (hc : isWordStart c = false) : False :=
  Bool.false_ne_true (hc.symm.trans (h.isWordStart_of_ahead (hs.ahead_eq hg)))

theorem Word.length_lt {name : String} {cs rest : List Char} (h : Word name cs rest) :
    rest.length < cs.length := by
  obtain ⟨c, w, hw, -⟩ := h.isWord
  have hs := h.spelled
  rw [hw] at hs
  exact hs.length_lt

theorem Delimits.ahead_eq {d : Delimiter} {cs rest : List Char} (h : Delimits d cs rest) :
    ∃ c ∈ d.chars, ahead cs = some c := by
  obtain ⟨c, hc, h⟩ := h
  exact ⟨c, hc, h.ahead_eq (d.isGap_eq_false c hc)⟩

theorem Delimits.length_lt {d : Delimiter} {cs rest : List Char} (h : Delimits d cs rest) :
    rest.length < cs.length := by
  obtain ⟨_, _, h⟩ := h
  exact h.length_lt

theorem Maybe.length_le {token : List Char → List Char → Prop} {cs rest : List Char}
    (h : Maybe token cs rest) (ht : token cs rest → rest.length < cs.length) :
    rest.length ≤ cs.length := by
  rcases h with rfl | h
  · exact le_rfl
  · exact (ht h).le

theorem ParamName.length_lt {cs rest : List Char} (h : ParamName cs rest) :
    rest.length < cs.length := by
  obtain ⟨_, _, hw, hc⟩ := h
  exact hc.length_lt.trans hw.length_lt

theorem PropertyKey.length_lt {key : String} {cs rest : List Char} (h : PropertyKey key cs rest) :
    rest.length < cs.length :=
  h.elim Word.length_lt Quoted.length_lt

theorem OptionalMark.length_le {marked : Bool} {cs rest : List Char}
    (h : OptionalMark marked cs rest) : rest.length ≤ cs.length := by
  cases marked with
  | true => exact (Spelled.length_lt h).le
  | false => exact (congrArg List.length h).le

theorem ArraySuffix.ahead_eq {cs rest : List Char} (h : ArraySuffix cs rest) :
    ahead cs = some '[' := by
  obtain ⟨_, -, h⟩ := h
  exact h.ahead_eq rfl

theorem NumberLiteral.ahead_eq {v : Literal} {cs rest : List Char} (h : NumberLiteral v cs rest) :
    ∃ c, ahead cs = some c ∧ (c = '-' ∨ c.isDigit = true) := by
  obtain ⟨n, w, hw, -, hs⟩ := h
  obtain ⟨c, w', rfl, hc⟩ := hw.head
  refine ⟨c, hs.ahead_eq ?_, hc⟩
  rcases hc with rfl | hd
  · decide
  · exact isGap_eq_false_of_isWordPart (isWordPart_of_isDigit hd)

theorem Quoted.ahead_eq {s : String} {cs rest : List Char} (h : Quoted s cs rest) :
    ∃ c, ahead cs = some c ∧ (c = '"' ∨ c = '\'') := by
  obtain ⟨quote, _, hq, -, -, hs⟩ := h
  exact ⟨quote, hs.ahead_eq (isGap_of_quote hq), hq⟩

theorem placeholder_ahead {w cs rest : List Char} (hw : IsPlaceholder w) (h : Spelled w cs rest) :
    ahead cs = some '$' := by
  obtain ⟨_, rfl, -⟩ := hw
  exact h.ahead_eq rfl

namespace Phrase

theorem length_le {s : Symbol} {cs v rest} (h : Phrase s cs v rest) :
    rest.length ≤ cs.length := by
  induction h with
  | ofFunction _ ih | ofUnion _ ih | ofSuffixed _ ih | single _ ih | present _ ih =>
    exact ih
  | absent => exact le_rfl
  | function h₁ _ h₃ h₄ _ ih₂ ih₅ =>
    have := h₁.length_lt
    have := h₃.length_lt
    have := h₄.length_lt
    omega
  | param h _ ih => exact ih.trans (h.length_le ParamName.length_lt)
  | union h _ ih | intersection h _ ih => exact ih.trans (h.length_le Spelled.length_lt)
  | nullable h _ ih => exact ih.trans h.length_lt.le
  | suffixed _ h ih => exact h.length_le.trans ih
  | keyword h | name h => exact h.length_lt.le
  | number h =>
    obtain ⟨_, _, -, -, h⟩ := h
    have := h.length
    omega
  | string h => exact h.length_lt.le
  | placeholder _ h =>
    have := h.length
    omega
  | arrayOf h₁ h₂ _ h₄ ih =>
    have := h₁.length_lt
    have := h₂.length_lt
    have := h₄.length_lt
    omega
  | group h₁ _ h₃ ih | tuple h₁ _ h₃ ih =>
    have := h₁.length_lt
    have := h₃.length_lt
    omega
  | emptyObject h₁ h₂ => exact (h₂.length_lt.trans h₁.length_lt).le
  | object h₁ _ h₃ h₄ ih =>
    have := h₁.length_lt
    have := h₃.length_le Delimits.length_lt
    have := h₄.length_lt
    omega
  | property h₁ h₂ h₃ _ ih =>
    have := h₁.length_lt
    have := h₂.length_le
    have := h₃.length_lt
    omega
  | cons _ h _ ih₁ ih₂ =>
    have := h.length_lt
    omega

end Phrase

def Symbol.Nonempty : Symbol → Prop
  | list _ item => item.Nonempty
  | optional _ _ => False
  | _ => True

def Symbol.leads : Symbol → List Char
  | type => ['|', '&', '?']
  | param => ['|', '&', '?']
  | union => ['|', '&', '?']
  | intersection => ['&', '?']
  | nullable => ['?']
  | list _ item => item.leads
  | _ => []

def Opens (c : Char) : Prop :=
  isWordStart c = true ∨ c.isDigit = true ∨ c ∈ ['-', '"', '\'', '$', '(', '[', '{']

theorem Word.opens {name : String} {cs rest : List Char} (h : Word name cs rest) :
    ∃ c, ahead cs = some c ∧ Opens c := by
  obtain ⟨c, hc, hn⟩ := h.ahead_eq
  exact ⟨c, hn, .inl hc⟩

theorem Quoted.opens {s : String} {cs rest : List Char} (h : Quoted s cs rest) :
    ∃ c, ahead cs = some c ∧ Opens c := by
  obtain ⟨c, hc, rfl | rfl⟩ := h.ahead_eq
  · exact ⟨_, hc, .inr (.inr (by decide))⟩
  · exact ⟨_, hc, .inr (.inr (by decide))⟩

theorem NumberLiteral.opens {v : Literal} {cs rest : List Char} (h : NumberLiteral v cs rest) :
    ∃ c, ahead cs = some c ∧ Opens c := by
  obtain ⟨c, hc, rfl | hd⟩ := h.ahead_eq
  · exact ⟨_, hc, .inr (.inr (by decide))⟩
  · exact ⟨_, hc, .inr (.inl hd)⟩

theorem Phrase.first {s : Symbol} {cs v rest} (h : Phrase s cs v rest) (hs : s.Nonempty) :
    ∃ c, ahead cs = some c ∧ (c ∈ s.leads ∨ Opens c) := by
  have hopens {cs : List Char} {l : List Char} (h : ∃ c, ahead cs = some c ∧ Opens c) :
      ∃ c, ahead cs = some c ∧ (c ∈ l ∨ Opens c) := h.imp fun _ h => ⟨h.1, .inr h.2⟩
  induction h with
  | ofFunction _ ih | ofSuffixed _ ih | suffixed _ _ ih =>
    obtain ⟨c, hc, hm | ho⟩ := ih trivial
    · exact absurd hm List.not_mem_nil
    · exact ⟨c, hc, .inr ho⟩
  | ofUnion _ ih => exact ih trivial
  | function h | tuple h | emptyObject h | object h | group h =>
    exact ⟨_, h.ahead_eq rfl, .inr (.inr (.inr (by decide)))⟩
  | nullable h => exact ⟨_, h.ahead_eq rfl, .inl (by decide)⟩
  | param h _ ih =>
    rcases h with rfl | ⟨_, _, h, -⟩
    · exact ih trivial
    · exact hopens h.opens
  | union h _ ih | intersection h _ ih =>
    rcases h with rfl | h
    · obtain ⟨c, hc, hm | ho⟩ := ih trivial
      · exact ⟨c, hc, .inl (List.mem_cons_of_mem _ hm)⟩
      · exact ⟨c, hc, .inr ho⟩
    · exact ⟨_, h.ahead_eq rfl, .inl (by decide)⟩
  | keyword h | name h | arrayOf h => exact hopens h.opens
  | number h => exact hopens h.opens
  | string h => exact hopens h.opens
  | placeholder hw h => exact ⟨_, placeholder_ahead hw h, .inr (.inr (.inr (by decide)))⟩
  | property h => exact hopens (h.elim Word.opens Quoted.opens)
  | single _ ih => exact ih hs
  | cons _ _ _ ih _ => exact ih hs
  | absent | present => exact hs.elim

theorem Phrase.ahead_not_blank {s : Symbol} {cs v rest} (h : Phrase s cs v rest) (hs : s.Nonempty) :
    ∃ c, ahead cs = some c ∧ isBlank c = false := by
  have hleads (s : Symbol) : ∀ c ∈ s.leads, isBlank c = false := by
    induction s with
    | list _ _ ih => exact ih
    | optional => exact fun _ h => absurd h List.not_mem_nil
    | _ => exact List.all_iff_forall_prop.mp rfl
  have hpunct : ∀ c ∈ ['-', '"', '\'', '$', '(', '[', '{'], isBlank c = false :=
    List.all_iff_forall_prop.mp rfl
  obtain ⟨c, hc, hm | hw | hd | hp⟩ := h.first hs
  · exact ⟨c, hc, hleads s c hm⟩
  · exact ⟨c, hc, isBlank_eq_false_of_isWordPart (isWordPart_of_isWordStart hw)⟩
  · exact ⟨c, hc, isBlank_eq_false_of_isWordPart (isWordPart_of_isDigit hd)⟩
  · exact ⟨c, hc, hpunct c hp⟩

theorem Spelled.cons_gap {w cs rest : List Char} {g : Char} (h : Spelled w cs rest)
    (hg : isGap g = true) : Spelled w (g :: cs) rest := by
  obtain ⟨gaps, hgaps, rfl⟩ := h
  exact ⟨g :: gaps, List.forall_mem_cons.mpr ⟨hg, hgaps⟩, rfl⟩

theorem Word.cons_gap {name : String} {cs rest : List Char} {g : Char} (h : Word name cs rest)
    (hg : isGap g = true) : Word name (g :: cs) rest :=
  ⟨h.isWord, h.spelled.cons_gap hg, h.wordBreak⟩

theorem Quoted.cons_gap {s : String} {cs rest : List Char} {g : Char} (h : Quoted s cs rest)
    (hg : isGap g = true) : Quoted s (g :: cs) rest := by
  obtain ⟨quote, body, hq, hb, hs, h⟩ := h
  exact ⟨quote, body, hq, hb, hs, h.cons_gap hg⟩

/-- A gap in front of a phrase is skipped. -/
theorem Phrase.cons_gap {s : Symbol} {cs v rest} (h : Phrase s cs v rest) (hs : s.Nonempty)
    {g : Char} (hg : isGap g = true) : Phrase s (g :: cs) v rest := by
  induction h with
  | ofFunction _ ih => exact .ofFunction (ih trivial)
  | ofUnion _ ih => exact .ofUnion (ih trivial)
  | ofSuffixed _ ih => exact .ofSuffixed (ih trivial)
  | function h₁ h₂ h₃ h₄ h₅ => exact .function (h₁.cons_gap hg) h₂ h₃ h₄ h₅
  | param h₁ h₂ ih =>
    rcases h₁ with rfl | ⟨name, r, hw, hc⟩
    · exact .param (.inl rfl) (ih trivial)
    · exact .param (.inr ⟨name, r, hw.cons_gap hg, hc⟩) h₂
  | union h₁ h₂ ih =>
    rcases h₁ with rfl | h₁
    · exact .union (.inl rfl) (ih trivial)
    · exact .union (.inr (h₁.cons_gap hg)) h₂
  | intersection h₁ h₂ ih =>
    rcases h₁ with rfl | h₁
    · exact .intersection (.inl rfl) (ih trivial)
    · exact .intersection (.inr (h₁.cons_gap hg)) h₂
  | nullable h₁ h₂ => exact .nullable (h₁.cons_gap hg) h₂
  | suffixed _ h ih => exact .suffixed (ih trivial) h
  | keyword h hk => exact .keyword (h.cons_gap hg) hk
  | number h =>
    obtain ⟨n, w, hw, rfl, h⟩ := h
    exact .number ⟨n, w, hw, rfl, h.cons_gap hg⟩
  | string h => exact .string (h.cons_gap hg)
  | placeholder hn h => exact .placeholder hn (h.cons_gap hg)
  | name h hk => exact .name (h.cons_gap hg) hk
  | arrayOf h₁ h₂ h₃ h₄ => exact .arrayOf (h₁.cons_gap hg) h₂ h₃ h₄
  | group h₁ h₂ h₃ => exact .group (h₁.cons_gap hg) h₂ h₃
  | tuple h₁ h₂ h₃ => exact .tuple (h₁.cons_gap hg) h₂ h₃
  | emptyObject h₁ h₂ => exact .emptyObject (h₁.cons_gap hg) h₂
  | object h₁ h₂ h₃ h₄ => exact .object (h₁.cons_gap hg) h₂ h₃ h₄
  | property h₁ h₂ h₃ h₄ =>
    exact .property (h₁.imp (·.cons_gap hg) (·.cons_gap hg)) h₂ h₃ h₄
  | single _ ih => exact .single (ih hs)
  | cons _ h₂ h₃ ih _ => exact .cons (ih hs) h₂ h₃
  | absent | present => exact hs.elim

def Symbol.IsType : Symbol → Prop
  | param => False
  | property => False
  | list _ item => item.IsType
  | optional _ _ => False
  | _ => True

theorem Phrase.ahead_after_word {s : Symbol} {cs v rest} (h : Phrase s cs v rest) (hs : s.IsType)
    {name : String} {r : List Char} (hw : Word name cs r) (hr : ahead rest ≠ some ':') :
    ahead r ≠ some ':' := by
  induction h with
  | ofFunction _ ih | ofUnion _ ih | ofSuffixed _ ih => exact ih trivial hw hr
  | function h | tuple h | emptyObject h | object h | group h | nullable h =>
    exact (hw.not_spelled h rfl rfl).elim
  | union h _ ih | intersection h _ ih =>
    rcases h with rfl | h
    · exact ih trivial hw hr
    · exact (hw.not_spelled h rfl rfl).elim
  | suffixed _ h ih =>
    refine ih trivial hw ?_
    cases h with
    | zero => exact hr
    | succ h _ => simp [h.ahead_eq]
  | keyword h | name h => rwa [(hw.unique h).2]
  | arrayOf h₁ h₂ =>
    rw [(hw.unique h₁).2, h₂.ahead_eq rfl]
    simp
  | number h =>
    obtain ⟨c, hc, hd⟩ := h.ahead_eq
    have hc' := hw.isWordStart_of_ahead hc
    rcases hd with rfl | hd
    · exact absurd hc' (by decide)
    · exact absurd hc' (by simp [isWordStart_of_isDigit hd])
  | string h =>
    obtain ⟨c, hc, rfl | rfl⟩ := h.ahead_eq
    · exact absurd (hw.isWordStart_of_ahead hc) (by decide)
    · exact absurd (hw.isWordStart_of_ahead hc) (by decide)
  | placeholder hp h =>
    exact absurd (hw.isWordStart_of_ahead (placeholder_ahead hp h)) (by decide)
  | single _ ih => exact ih hs hw hr
  | @cons d _ _ _ _ _ _ _ _ h _ ih _ =>
    obtain ⟨c, hc, hn⟩ := h.ahead_eq
    refine ih hs hw ?_
    rw [hn]
    rintro ⟨⟩
    revert hc
    cases d <;> decide
  | param | property | absent | present => exact hs.elim

/-- Whether the symbol is below unions, where a function type stands in parentheses. -/
def Symbol.IsOperand : Symbol → Prop
  | union => True
  | intersection => True
  | nullable => True
  | suffixed => True
  | primary => True
  | list d item => item.IsOperand ∧ '=' ∉ d.chars
  | _ => False

theorem Spelled.ahead_unique {c d : Char} {w cs rest : List Char} (h : Spelled (c :: w) cs rest)
    (hc : isGap c = false) (hd : ahead cs = some d) : c = d :=
  Option.some.inj ((h.ahead_eq hc).symm.trans hd)

/-- An operand that begins with a parenthesis begins with a type in parentheses. -/
theorem Phrase.group_of_paren {s : Symbol} {cs v rest} (h : Phrase s cs v rest)
    (hs : s.IsOperand) (hcs : ahead cs = some '(') (hr : ahead rest ≠ some '=') :
    ∃ r₁ t r₂ r₃, Spelled ['('] cs r₁ ∧ Phrase .type r₁ t r₂ ∧ Spelled [')'] r₂ r₃ ∧
      ahead r₃ ≠ some '=' := by
  have hword {name : String} {cs r : List Char} (h : Word name cs r)
      (hcs : ahead cs = some '(') : False :=
    absurd (h.isWordStart_of_ahead hcs) (by decide)
  induction h with
  | union h _ ih | intersection h _ ih =>
    rcases h with rfl | h
    · exact ih ⟨trivial, by decide⟩ hcs hr
    · exact absurd (h.ahead_unique rfl hcs) (by decide)
  | ofSuffixed _ ih => exact ih trivial hcs hr
  | suffixed _ h ih =>
    refine ih trivial hcs ?_
    cases h with
    | zero => exact hr
    | succ h _ => simp [h.ahead_eq]
  | nullable h | tuple h | emptyObject h | object h =>
    exact absurd (h.ahead_unique rfl hcs) (by decide)
  | keyword h | name h | arrayOf h => exact (hword h hcs).elim
  | number h =>
    obtain ⟨c, hc, hd⟩ := h.ahead_eq
    obtain rfl := Option.some.inj (hcs.symm.trans hc)
    exact absurd hd (by decide)
  | string h =>
    obtain ⟨c, hc, hq⟩ := h.ahead_eq
    obtain rfl := Option.some.inj (hcs.symm.trans hc)
    exact absurd hq (by decide)
  | placeholder hw h =>
    exact absurd (hcs.symm.trans (placeholder_ahead hw h)) (by decide)
  | group h₁ h₂ h₃ => exact ⟨_, _, _, _, h₁, h₂, h₃, hr⟩
  | single _ ih => exact ih hs.1 hcs hr
  | cons _ h _ ih _ =>
    obtain ⟨c, hc, hn⟩ := h.ahead_eq
    refine ih hs.1 hcs ?_
    rw [hn]
    rintro ⟨⟩
    exact hs.2 hc
  | ofFunction | ofUnion | function | param | property | absent | present => exact hs.elim

end TypeGuard.Grammar
