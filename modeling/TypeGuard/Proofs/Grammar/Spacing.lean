import TypeGuard.Proofs.Grammar.Recognition
import TypeGuard.Proofs.Grammar.Tokens
import TypeGuard.Proofs.TypeExpr.Texts

/-! # Spacing

A type expression is read from its tokens, so that gaps between them do not matter. The tokens of
the text that is read depend on gaps in one respect: a tab between quotes is laid out according to
the column in which it stands.
-/

namespace TypeGuard

namespace Grammar

open Text TypeExpr

/-! ## Texts alike -/

/-- Two texts whose tokens differ in the widths of runs of spaces only. -/
def Alike (cs cs' : List Char) : Prop :=
  List.Forall₂ Stretched (tokens cs) (tokens cs')

/-- A passage in each of two texts, up to what remains of them: what remains is alike, and the
passages have the same tokens under one condition only. -/
structure Passes (cs rest cs' rest' : List Char) (same : Prop) : Prop where
  alike : Alike rest rest'
  closed : Closed rest → Closed cs
  tokens_eq_iff : tokens cs' = tokens cs ↔ same ∧ tokens rest' = tokens rest

namespace Passes

variable {cs rest cs' rest' : List Char} {P Q : Prop}

theorem refl (h : Alike cs cs') : Passes cs cs cs' cs' True :=
  ⟨h, id, by rw [true_and]⟩

theorem congr (h : Passes cs rest cs' rest' P) (hpq : P ↔ Q) : Passes cs rest cs' rest' Q :=
  ⟨h.alike, h.closed, by rw [h.tokens_eq_iff, hpq]⟩

theorem trans {r r' : List Char} (h : Passes cs r cs' r' P) (h' : Passes r rest r' rest' Q) :
    Passes cs rest cs' rest' (P ∧ Q) :=
  ⟨h'.alike, fun hrest => h.closed (h'.closed hrest),
    by rw [h.tokens_eq_iff, h'.tokens_eq_iff, and_assoc]⟩

end Passes

/-! ## Tokens -/

variable {w cs rest cs' : List Char}

theorem Token.passes (ht : Token w rest) (hs : Spelled w cs rest)
    (hopen : ∀ quote, quote = '"' ∨ quote = '\'' → w ≠ [quote]) (h : Alike cs cs') :
    ∃ w' rest', Stretched w w' ∧ Token w' rest' ∧ Spelled w' cs' rest' ∧
      Passes cs rest cs' rest' (w' = w) := by
  have hcs := ht.tokens_eq hs
  rw [Alike, hcs] at h
  obtain ⟨w', _, hw, hrest, hcs'⟩ := List.forall₂_cons_left_iff.mp h
  obtain ⟨rest', ht', hs', rfl⟩ := exists_of_tokens_eq_cons hcs'
  refine ⟨w', rest', hw, ht', hs', hrest, fun hclosed quote hq hmem => ?_, ?_⟩
  · rw [hcs] at hmem
    rcases List.mem_cons.mp hmem with he | hmem
    · exact hopen quote hq he.symm
    · exact hclosed quote hq hmem
  · rw [hcs, hcs', List.cons.injEq]

theorem Token.passes_of_not_mem (ht : Token w rest) (hs : Spelled w cs rest)
    (hopen : ∀ quote, quote = '"' ∨ quote = '\'' → w ≠ [quote]) (hspace : ' ' ∉ w)
    (h : Alike cs cs') :
    ∃ rest', Token w rest' ∧ Spelled w cs' rest' ∧ Passes cs rest cs' rest' True := by
  obtain ⟨w', rest', hw, ht', hs', hp⟩ := ht.passes hs hopen h
  obtain rfl := hw.eq_of_not_mem hspace
  exact ⟨rest', ht', hs', hp.congr (by simp)⟩

def isMark (c : Char) : Bool :=
  !(isGap c || isJoint c || c = '"' || c = '\'' || c = '=')

theorem Spelled.passes_mark {c : Char} (hs : Spelled [c] cs rest) (hc : isMark c = true)
    (h : Alike cs cs') :
    ∃ rest', Spelled [c] cs' rest' ∧ Passes cs rest cs' rest' True := by
  simp only [isMark, Bool.not_eq_true', Bool.or_eq_false_iff, decide_eq_false_iff_not] at hc
  obtain ⟨⟨⟨⟨hg, hj⟩, hdouble⟩, hsingle⟩, heq⟩ := hc
  have hquote : ¬ (c = '"' ∨ c = '\'') := not_or.mpr ⟨hdouble, hsingle⟩
  have ht : Token [c] rest := .mark hg hj hquote fun he => absurd he heq
  have hopen : ∀ quote, quote = '"' ∨ quote = '\'' → [c] ≠ [quote] :=
    fun quote hq he => hquote ((List.cons.inj he).1 ▸ hq)
  have hspace : ' ' ∉ [c] := by
    rw [List.mem_singleton]
    rintro rfl
    exact absurd hg (by decide)
  obtain ⟨rest', -, hs', hp⟩ := ht.passes_of_not_mem hs hopen hspace h
  exact ⟨rest', hs', hp⟩

theorem Spelled.passes_arrow (hs : Spelled ['=', '>'] cs rest) (h : Alike cs cs') :
    ∃ rest', Spelled ['=', '>'] cs' rest' ∧ Passes cs rest cs' rest' True := by
  obtain ⟨rest', -, hs', hp⟩ := Token.arrow.passes_of_not_mem hs (by simp) (by decide) h
  exact ⟨rest', hs', hp⟩

theorem Token.tokenBreak (h : Token w rest) (hw : ∀ c ∈ w, isJoint c = true) :
    TokenBreak rest := by
  cases h with
  | joint _ _ hr => exact hr
  | quoted hq => exact absurd (hw _ List.mem_cons_self) (by simp [isJoint_of_quote hq])
  | openQuote hq => exact absurd (hw _ List.mem_cons_self) (by simp [isJoint_of_quote hq])
  | arrow => exact absurd (hw '=' List.mem_cons_self) (by decide)
  | mark _ hj => exact absurd (hw _ List.mem_cons_self) (by simp [hj])

theorem Spelled.passes_joint (hs : Spelled w cs rest) (hne : w ≠ [])
    (hw : ∀ c ∈ w, isJoint c = true) (hr : TokenBreak rest) (h : Alike cs cs') :
    ∃ rest', TokenBreak rest' ∧ Spelled w cs' rest' ∧ Passes cs rest cs' rest' True := by
  have hopen : ∀ quote, quote = '"' ∨ quote = '\'' → w ≠ [quote] := by
    rintro quote hq rfl
    exact absurd (hw quote List.mem_cons_self) (by simp [isJoint_of_quote hq])
  have hspace : ' ' ∉ w := fun hmem => absurd (hw _ hmem) (by decide)
  obtain ⟨rest', ht', hs', hp⟩ := (Token.joint hne hw hr).passes_of_not_mem hs hopen hspace h
  exact ⟨rest', ht'.tokenBreak hw, hs', hp⟩

/-! ## Terminals -/

theorem isJoint_of_isWordPart {c : Char} (h : isWordPart c = true) : isJoint c = true := by
  simp [isJoint, h]

theorem Word.passes {name : String} (hw : Word name cs rest) (hr : TokenBreak rest)
    (h : Alike cs cs') : ∃ rest', Word name cs' rest' ∧ Passes cs rest cs' rest' True := by
  have hne : name.toList ≠ [] := by
    obtain ⟨c, v, hname, -⟩ := hw.isWord
    simp [hname]
  have hall := fun c hc => isJoint_of_isWordPart (hw.isWord.all c hc)
  obtain ⟨rest', hr', hs', hp⟩ := hw.spelled.passes_joint hne hall hr h
  exact ⟨rest', ⟨hw.isWord, hs', hr'.wordBreak⟩, hp⟩

theorem NumberLiteral.passes {v : Literal} (hv : NumberLiteral v cs rest) (hr : TokenBreak rest)
    (h : Alike cs cs') : ∃ rest', NumberLiteral v cs' rest' ∧ Passes cs rest cs' rest' True := by
  obtain ⟨n, w, hw, hvalue, hs⟩ := hv
  have hne : w ≠ [] := by
    obtain ⟨c, w', rfl, -⟩ := hw.head
    exact List.cons_ne_nil c w'
  have hall : ∀ c ∈ w, isJoint c = true := by
    intro c hc
    rcases hw.char c hc with hd | hm
    · exact isJoint_of_isWordPart (isWordPart_of_isDigit hd)
    · exact List.all_eq_true.mp (by decide : ['-', '+', '.', 'e', 'E'].all isJoint = true) c hm
  obtain ⟨rest', -, hs', hp⟩ := hs.passes_joint hne hall hr h
  exact ⟨rest', ⟨n, w, hw, hvalue, hs'⟩, hp⟩

theorem placeholder_passes (hw : IsPlaceholder w) (hs : Spelled w cs rest) (hr : TokenBreak rest)
    (h : Alike cs cs') : ∃ rest', Spelled w cs' rest' ∧ Passes cs rest cs' rest' True := by
  obtain ⟨digits, rfl, -, hdigits⟩ := hw
  have hall : ∀ c ∈ '$' :: 'R' :: 'e' :: 'f' :: digits, isJoint c = true := by
    simp only [List.forall_mem_cons]
    exact ⟨rfl, rfl, rfl, rfl,
      fun c hc => isJoint_of_isWordPart (isWordPart_of_isDigit (hdigits c hc))⟩
  obtain ⟨rest', -, hs', hp⟩ := hs.passes_joint (List.cons_ne_nil _ _) hall hr h
  exact ⟨rest', hs', hp⟩

theorem Quoted.passes {s : String} (hq : Quoted s cs rest) (h : Alike cs cs') :
    ∃ s' rest', Quoted s' cs' rest' ∧ dropSpaces s' = dropSpaces s ∧
      Passes cs rest cs' rest' (s' = s) := by
  obtain ⟨quote, body, hquote, hbody, rfl, hs⟩ := hq
  obtain ⟨_, rest', hw, -, hs', hp⟩ := (Token.quoted hquote hbody).passes hs (by simp) h
  obtain ⟨body', rfl, hbody', hspaces, heq⟩ := hbody.of_stretched hquote hw
  refine ⟨_, rest', ⟨quote, body', hquote, hbody', rfl, hs'⟩, ?_, hp.congr ?_⟩
  · simp only [dropSpaces, String.toList_ofList, hspaces]
  · rw [String.ofList_inj, heq]
    simp

/-! ## Array suffixes and delimiters -/

theorem isMark_of_isBlank {c : Char} (hb : isBlank c = true) (hg : isGap c = false) :
    isMark c = true := by
  have hword : isWordPart c = false :=
    Bool.eq_false_iff.mpr fun h => by simp [isBlank_eq_false_of_isWordPart h] at hb
  have hpunct : ['$', '.', '+', '-', '"', '\'', '='].all (!isBlank ·) = true := rfl
  have hne : ∀ d ∈ ['$', '.', '+', '-', '"', '\'', '='], c ≠ d := by
    rintro d hd rfl
    simpa [hb] using List.all_eq_true.mp hpunct c hd
  simp only [List.forall_mem_cons] at hne
  simp [isMark, isJoint, hg, hword, hne]

theorem blanks_passes {blanks : List Char} (hb : ∀ c ∈ blanks, isBlank c = true)
    (h : Alike (blanks ++ ']' :: rest) cs') :
    ∃ blanks' rest', (∀ c ∈ blanks', isBlank c = true) ∧ cs' = blanks' ++ ']' :: rest' ∧
      Passes (blanks ++ ']' :: rest) rest cs' rest' True := by
  induction blanks generalizing cs' with
  | nil =>
    obtain ⟨rest', ⟨gaps, hgaps, rfl⟩, hp⟩ :=
      Spelled.passes_mark (c := ']') ⟨[], by simp, rfl⟩ rfl h
    exact ⟨gaps, rest', fun c hc => isBlank_of_isGap (hgaps c hc), rfl, hp⟩
  | cons c blanks ih =>
    obtain ⟨hc, hb⟩ := List.forall_mem_cons.mp hb
    by_cases hg : isGap c = true
    · have htokens : tokens (c :: (blanks ++ ']' :: rest)) = tokens (blanks ++ ']' :: rest) :=
        tokens_gaps_append (List.forall_mem_singleton.mpr hg) _
      rw [List.cons_append, Alike, htokens] at h
      obtain ⟨blanks', rest', hb', rfl, hp⟩ := ih hb h
      refine ⟨blanks', rest', hb', rfl, hp.alike, fun hclosed quote hq => ?_, ?_⟩
      · rw [List.cons_append, htokens]
        exact hp.closed hclosed quote hq
      · rw [List.cons_append, htokens, hp.tokens_eq_iff]
    · have hmark := isMark_of_isBlank hc (Bool.eq_false_iff.mpr hg)
      obtain ⟨r', ⟨gaps, hgaps, rfl⟩, hp⟩ :=
        Spelled.passes_mark (c := c) ⟨[], by simp, rfl⟩ hmark h
      obtain ⟨blanks', rest', hb', rfl, hp'⟩ := ih hb hp.alike
      refine ⟨gaps ++ c :: blanks', rest', ?_, by simp, (hp.trans hp').congr (by simp)⟩
      refine List.forall_mem_append.mpr ⟨fun d hd => isBlank_of_isGap (hgaps d hd), ?_⟩
      exact List.forall_mem_cons.mpr ⟨hc, hb'⟩

theorem ArraySuffix.passes (hs : ArraySuffix cs rest) (h : Alike cs cs') :
    ∃ rest', ArraySuffix cs' rest' ∧ Passes cs rest cs' rest' True := by
  obtain ⟨blanks, hb, gaps, hgaps, rfl⟩ := hs
  have hopen : Spelled ['['] (gaps ++ (('[' :: (blanks ++ [']'])) ++ rest))
      (blanks ++ ']' :: rest) := ⟨gaps, hgaps, by simp⟩
  obtain ⟨r', ⟨gaps', hgaps', rfl⟩, hp⟩ := hopen.passes_mark rfl h
  obtain ⟨blanks', rest', hb', rfl, hp'⟩ := blanks_passes hb hp.alike
  exact ⟨rest', ⟨blanks', hb', gaps', hgaps', by simp⟩, (hp.trans hp').congr (by simp)⟩

theorem Suffixes.passes {n : ℕ} (hs : Suffixes n cs rest) (h : Alike cs cs') :
    ∃ rest', Suffixes n cs' rest' ∧ Passes cs rest cs' rest' True := by
  induction hs generalizing cs' with
  | zero => exact ⟨cs', .zero, .refl h⟩
  | succ hsuffix _ ih =>
    obtain ⟨r', hsuffix', hp⟩ := hsuffix.passes h
    obtain ⟨rest', hs', hp'⟩ := ih hp.alike
    exact ⟨rest', .succ hsuffix' hs', (hp.trans hp').congr (by simp)⟩

theorem Delimits.passes {d : Delimiter} (hd : Delimits d cs rest) (h : Alike cs cs') :
    ∃ rest', Delimits d cs' rest' ∧ Passes cs rest cs' rest' True := by
  obtain ⟨c, hc, hs⟩ := hd
  have hall : d.chars.all isMark = true := by cases d <;> rfl
  obtain ⟨rest', hs', hp⟩ := hs.passes_mark (List.all_eq_true.mp hall c hc) h
  exact ⟨rest', ⟨c, hc, hs'⟩, hp⟩

theorem Maybe.passes {token : List Char → List Char → Prop} (hm : Maybe token cs rest)
    (h : Alike cs cs')
    (ht : token cs rest → ∃ rest', token cs' rest' ∧ Passes cs rest cs' rest' True) :
    ∃ rest', Maybe token cs' rest' ∧ Passes cs rest cs' rest' True := by
  rcases hm with rfl | hm
  · exact ⟨cs', .inl rfl, .refl h⟩
  · obtain ⟨rest', ht', hp⟩ := ht hm
    exact ⟨rest', .inr ht', hp⟩

theorem OptionalMark.passes {marked : Bool} (hm : OptionalMark marked cs rest)
    (h : Alike cs cs') :
    ∃ rest', OptionalMark marked cs' rest' ∧ Passes cs rest cs' rest' True := by
  cases marked with
  | true => exact Spelled.passes_mark hm rfl h
  | false =>
    obtain rfl : rest = cs := hm
    exact ⟨cs', rfl, .refl h⟩

theorem ParamName.passes (hn : ParamName cs rest) (h : Alike cs cs') :
    ∃ rest', ParamName cs' rest' ∧ Passes cs rest cs' rest' True := by
  obtain ⟨name, r, hw, hs⟩ := hn
  obtain ⟨r', hw', hp⟩ := hw.passes (hs.tokenBreak rfl) h
  obtain ⟨rest', hs', hp'⟩ := hs.passes_mark rfl hp.alike
  exact ⟨rest', ⟨name, r', hw', hs'⟩, (hp.trans hp').congr (by simp)⟩

theorem PropertyKey.passes {key : String} (hk : PropertyKey key cs rest) (hr : TokenBreak rest)
    (h : Alike cs cs') :
    ∃ key' rest', PropertyKey key' cs' rest' ∧ dropSpaces key' = dropSpaces key ∧
      Passes cs rest cs' rest' (key' = key) := by
  rcases hk with hw | hq
  · obtain ⟨rest', hw', hp⟩ := hw.passes hr h
    exact ⟨key, rest', .inl hw', rfl, hp.congr (by simp)⟩
  · obtain ⟨key', rest', hq', hkey, hp⟩ := hq.passes h
    exact ⟨key', rest', .inr hq', hkey, hp⟩

/-! ## Phrases -/

def Symbol.mapTexts (f : String → String) : (s : Symbol) → s.Value → s.Value
  | .property => fun p => ⟨f p.key, p.optional, p.value.mapTexts f⟩
  | .list _ item => List.map (item.mapTexts f)
  | .optional _ item => List.map (item.mapTexts f)
  | .type | .function | .param | .union | .intersection | .nullable | .suffixed | .primary =>
    TypeExpr.mapTexts f

/-- In a text alike, a phrase passes as a phrase of the same symbol that denotes the same up to
spaces in texts. -/
theorem Phrase.passes {s : Symbol} {cs v rest} (h : Phrase s cs v rest) (hr : TokenBreak rest)
    (cs' : List Char) (halike : Alike cs cs') :
    ∃ v' rest', Phrase s cs' v' rest' ∧
      s.mapTexts dropSpaces v' = s.mapTexts dropSpaces v ∧
      Passes cs rest cs' rest' (v' = v) := by
  induction h generalizing cs' with
  | ofFunction _ ih =>
    obtain ⟨t', rest', h', ht, hp⟩ := ih hr cs' halike
    exact ⟨t', rest', .ofFunction h', ht, hp⟩
  | ofUnion _ ih =>
    obtain ⟨t', rest', h', ht, hp⟩ := ih hr cs' halike
    exact ⟨t', rest', .ofUnion h', ht, hp⟩
  | ofSuffixed _ ih =>
    obtain ⟨t', rest', h', ht, hp⟩ := ih hr cs' halike
    exact ⟨t', rest', .ofSuffixed h', ht, hp⟩
  | function h₁ _ h₃ h₄ _ ih₂ ih₅ =>
    obtain ⟨r₁', h₁', p₁⟩ := h₁.passes_mark rfl halike
    obtain ⟨ps', r₂', h₂', hps, p₂⟩ := ih₂ (h₃.tokenBreak rfl) r₁' p₁.alike
    obtain ⟨r₃', h₃', p₃⟩ := h₃.passes_mark rfl p₂.alike
    obtain ⟨r₄', h₄', p₄⟩ := h₄.passes_arrow p₃.alike
    obtain ⟨t', rest', h₅', ht, p₅⟩ := ih₅ hr r₄' p₄.alike
    refine ⟨.function ps' t', rest', .function h₁' h₂' h₃' h₄' h₅', ?_, ?_⟩
    · refine (mapTexts_function _ ps' t').trans (.trans ?_ (mapTexts_function _ _ _).symm)
      exact congrArg₂ TypeExpr.function hps ht
    · exact (p₁.trans (p₂.trans (p₃.trans (p₄.trans p₅)))).congr (by simp)
  | param h _ ih =>
    obtain ⟨r', h₁', p₁⟩ := h.passes halike (fun h => h.passes halike)
    obtain ⟨t', rest', h₂', ht, p₂⟩ := ih hr r' p₁.alike
    exact ⟨t', rest', .param h₁' h₂', ht, (p₁.trans p₂).congr (by simp)⟩
  | union h _ ih =>
    obtain ⟨r', h₁', p₁⟩ := h.passes halike (fun h => h.passes_mark rfl halike)
    obtain ⟨ts', rest', h₂', hts, p₂⟩ := ih hr r' p₁.alike
    obtain ⟨hmap, heq⟩ :=
      foldMembers_alike _ (mapTexts_union _) (fun _ _ => TypeExpr.union.inj) hts
    exact ⟨_, rest', .union h₁' h₂', hmap, (p₁.trans p₂).congr (by rw [true_and, heq])⟩
  | intersection h _ ih =>
    obtain ⟨r', h₁', p₁⟩ := h.passes halike (fun h => h.passes_mark rfl halike)
    obtain ⟨ts', rest', h₂', hts, p₂⟩ := ih hr r' p₁.alike
    obtain ⟨hmap, heq⟩ :=
      foldMembers_alike _ (mapTexts_intersection _) (fun _ _ => TypeExpr.intersection.inj) hts
    exact ⟨_, rest', .intersection h₁' h₂', hmap, (p₁.trans p₂).congr (by rw [true_and, heq])⟩
  | nullable h _ ih =>
    obtain ⟨r', h₁', p₁⟩ := h.passes_mark rfl halike
    obtain ⟨t', rest', h₂', ht, p₂⟩ := ih hr r' p₁.alike
    refine ⟨.nullable t', rest', .nullable h₁' h₂', congrArg TypeExpr.nullable ht, ?_⟩
    exact (p₁.trans p₂).congr (by simp)
  | suffixed _ h ih =>
    obtain ⟨t', r', h₁', ht, p₁⟩ := ih (h.tokenBreak hr) cs' halike
    obtain ⟨rest', h₂', p₂⟩ := h.passes p₁.alike
    refine ⟨_, rest', .suffixed h₁' h₂', ?_, (p₁.trans p₂).congr ?_⟩
    · refine (mapTexts_arrays _ _ t').trans (.trans ?_ (mapTexts_arrays _ _ _).symm)
      exact congrArg _ ht
    · have harray : Function.Injective TypeExpr.array := fun _ _ => TypeExpr.array.inj
      rw [and_true, (harray.iterate _).eq_iff]
  | keyword h hk =>
    obtain ⟨rest', h', hp⟩ := h.passes hr halike
    exact ⟨_, rest', .keyword h' hk, rfl, hp.congr (by simp)⟩
  | number h =>
    obtain ⟨rest', h', hp⟩ := h.passes hr halike
    exact ⟨_, rest', .number h', rfl, hp.congr (by simp)⟩
  | string h =>
    obtain ⟨s', rest', h', hs, hp⟩ := h.passes halike
    refine ⟨_, rest', .string h', ?_, hp.congr (by simp)⟩
    exact congrArg (fun s => TypeExpr.literal (.str s)) hs
  | placeholder hn h =>
    obtain ⟨rest', h', hp⟩ := placeholder_passes hn h hr halike
    exact ⟨_, rest', .placeholder hn h', rfl, hp.congr (by simp)⟩
  | name h hk =>
    obtain ⟨rest', h', hp⟩ := h.passes hr halike
    exact ⟨_, rest', .name h' hk, rfl, hp.congr (by simp)⟩
  | arrayOf h₁ h₂ _ h₄ ih =>
    obtain ⟨r₁', h₁', p₁⟩ := h₁.passes (h₂.tokenBreak rfl) halike
    obtain ⟨r₂', h₂', p₂⟩ := h₂.passes_mark rfl p₁.alike
    obtain ⟨t', r₃', h₃', ht, p₃⟩ := ih (h₄.tokenBreak rfl) r₂' p₂.alike
    obtain ⟨rest', h₄', p₄⟩ := h₄.passes_mark rfl p₃.alike
    refine ⟨.array t', rest', .arrayOf h₁' h₂' h₃' h₄', congrArg TypeExpr.array ht, ?_⟩
    exact (p₁.trans (p₂.trans (p₃.trans p₄))).congr (by simp)
  | group h₁ _ h₃ ih =>
    obtain ⟨r₁', h₁', p₁⟩ := h₁.passes_mark rfl halike
    obtain ⟨t', r₂', h₂', ht, p₂⟩ := ih (h₃.tokenBreak rfl) r₁' p₁.alike
    obtain ⟨rest', h₃', p₃⟩ := h₃.passes_mark rfl p₂.alike
    exact ⟨t', rest', .group h₁' h₂' h₃', ht, (p₁.trans (p₂.trans p₃)).congr (by simp)⟩
  | tuple h₁ _ h₃ ih =>
    obtain ⟨r₁', h₁', p₁⟩ := h₁.passes_mark rfl halike
    obtain ⟨ts', r₂', h₂', hts, p₂⟩ := ih (h₃.tokenBreak rfl) r₁' p₁.alike
    obtain ⟨rest', h₃', p₃⟩ := h₃.passes_mark rfl p₂.alike
    refine ⟨.tuple ts', rest', .tuple h₁' h₂' h₃', ?_, (p₁.trans (p₂.trans p₃)).congr (by simp)⟩
    refine (mapTexts_tuple _ ts').trans (.trans ?_ (mapTexts_tuple _ _).symm)
    exact congrArg TypeExpr.tuple hts
  | emptyObject h₁ h₂ =>
    obtain ⟨r', h₁', p₁⟩ := h₁.passes_mark rfl halike
    obtain ⟨rest', h₂', p₂⟩ := h₂.passes_mark rfl p₁.alike
    exact ⟨_, rest', .emptyObject h₁' h₂', rfl, (p₁.trans p₂).congr (by simp)⟩
  | object h₁ _ h₃ h₄ ih =>
    have hbreak := h₃.tokenBreak Delimits.tokenBreak (h₄.tokenBreak rfl)
    obtain ⟨r₁', h₁', p₁⟩ := h₁.passes_mark rfl halike
    obtain ⟨ps', r₂', h₂', hps, p₂⟩ := ih hbreak r₁' p₁.alike
    obtain ⟨r₃', h₃', p₃⟩ := h₃.passes p₂.alike (fun h => h.passes p₂.alike)
    obtain ⟨rest', h₄', p₄⟩ := h₄.passes_mark rfl p₃.alike
    refine ⟨.object ps', rest', .object h₁' h₂' h₃' h₄', ?_, ?_⟩
    · refine (mapTexts_object _ ps').trans (.trans ?_ (mapTexts_object _ _).symm)
      exact congrArg TypeExpr.object hps
    · exact (p₁.trans (p₂.trans (p₃.trans p₄))).congr (by simp)
  | property h₁ h₂ h₃ _ ih =>
    obtain ⟨key', r₁', h₁', hkey, p₁⟩ := h₁.passes (h₂.tokenBreak (h₃.tokenBreak rfl)) halike
    obtain ⟨r₂', h₂', p₂⟩ := h₂.passes p₁.alike
    obtain ⟨r₃', h₃', p₃⟩ := h₃.passes_mark rfl p₂.alike
    obtain ⟨t', rest', h₄', ht, p₄⟩ := ih hr r₃' p₃.alike
    refine ⟨⟨key', _, t'⟩, rest', .property h₁' h₂' h₃' h₄', ?_, ?_⟩
    · exact congrArg₂ (Property.mk · _ ·) hkey ht
    · exact (p₁.trans (p₂.trans (p₃.trans p₄))).congr (by simp)
  | single _ ih =>
    obtain ⟨a', rest', h', ha, hp⟩ := ih hr cs' halike
    exact ⟨[a'], rest', .single h', congrArg (fun a => [a]) ha, hp.congr (by simp)⟩
  | cons _ h _ ih₁ ih₂ =>
    obtain ⟨a', r₁', h₁', ha, p₁⟩ := ih₁ h.tokenBreak cs' halike
    obtain ⟨r₂', h₂', p₂⟩ := h.passes p₁.alike
    obtain ⟨as', rest', h₃', has, p₃⟩ := ih₂ hr r₂' p₂.alike
    refine ⟨a' :: as', rest', .cons h₁' h₂' h₃', congrArg₂ List.cons ha has, ?_⟩
    exact (p₁.trans (p₂.trans p₃)).congr (by simp)
  | absent => exact ⟨[], cs', .absent, rfl, (Passes.refl halike).congr (by simp)⟩
  | present _ ih =>
    obtain ⟨as', rest', h', has, hp⟩ := ih hr cs' halike
    exact ⟨as', rest', .present h', has, hp⟩

/-! ## Texts -/

theorem Derives.passes {t : TypeExpr} (h : Derives cs t) (halike : Alike cs cs') :
    ∃ t', Derives cs' t' ∧ t'.mapTexts dropSpaces = t.mapTexts dropSpaces ∧ Closed cs ∧
      (tokens cs' = tokens cs ↔ t' = t) := by
  obtain ⟨rest, hphrase, hgaps⟩ := h
  have hnil := tokens_of_gaps hgaps
  obtain ⟨t', rest', hphrase', ht, hp⟩ := hphrase.passes (tokenBreak_of_gaps hgaps) cs' halike
  have hrest := hp.alike
  rw [Alike, hnil] at hrest
  have hnil' : tokens rest' = [] := List.forall₂_nil_left_iff.mp hrest
  refine ⟨t', ⟨rest', hphrase', tokens_eq_nil_iff.mp hnil'⟩, ht, hp.closed ?_, ?_⟩
  · exact fun quote _ hmem => by simp [hnil] at hmem
  · rw [hp.tokens_eq_iff, hnil, hnil', and_iff_left rfl]

theorem Derives.closed {t : TypeExpr} (h : Derives cs t) : Closed cs := by
  obtain ⟨_, -, -, hclosed, -⟩ := h.passes (List.forall₂_same.mpr fun w _ => .refl w)
  exact hclosed

end Grammar

open Text Grammar

namespace TypeExpr

/-- Where gaps are put between the tokens of a type expression, it is parsed into the same tree up
to spaces in texts and keys. The tree is the same exactly if tabs between quotes are laid out as
they were, and so in any case if there are none. -/
theorem parse_of_insertions {source source' : String} {t : TypeExpr}
    (h : TypeExpr.parse source = .ok t)
    (hinsertions : Relation.ReflTransGen Insertion source.toList source'.toList) :
    ∃ t', TypeExpr.parse source' = .ok t' ∧
      t'.mapTexts dropSpaces = t.mapTexts dropSpaces ∧
      (t' = t ↔ tokens (expandTabs source'.toList) = tokens (expandTabs source.toList)) ∧
      ((∀ w ∈ tokens source.toList, '\t' ∉ w) → t' = t) := by
  have hderives := parse_eq_ok_iff.mp h
  have htokens := tokens_eq_of_insertions hinsertions hderives.closed.of_expandTabsFrom
  have hlaid := tokens_expandTabsFrom 0 source.toList
  have hlaid' := htokens ▸ tokens_expandTabsFrom 0 source'.toList
  obtain ⟨t', ht', hspaces, -, heq⟩ := hderives.passes (stretched_of_laidOut hlaid hlaid')
  refine ⟨t', parse_eq_ok_iff.mpr ht', hspaces, heq.symm, fun htab => heq.mp ?_⟩
  unfold expandTabs
  rw [eq_of_laidOut hlaid htab, eq_of_laidOut hlaid' htab]

/-- A tab between quotes, with a space put before the quotes, is laid out as one space less. -/
theorem parse_of_insertion_before_tab :
    TypeExpr.parse "\"\t\"" = .ok (literal (.str "       ")) ∧
      Insertion "\"\t\"".toList " \"\t\"".toList ∧
      ∃ t', TypeExpr.parse " \"\t\"" = .ok t' ∧
        t'.mapTexts dropSpaces = literal (.str "") ∧ t' ≠ literal (.str "       ") := by
  have hparse : TypeExpr.parse "\"\t\"" = .ok (literal (.str "       ")) := by
    rw [parse_eq_ok_iff, ← parseText_eq_ok_iff]
    cbv
  have hspace : " \"\t\"".toList = [' '] ++ "\"\t\"".toList := rfl
  have hinsertion : Insertion "\"\t\"".toList " \"\t\"".toList := by
    rw [hspace]
    exact .before_first (List.forall_mem_singleton.mpr rfl) _
  obtain ⟨t', ht', hspaces, heq, -⟩ := parse_of_insertions hparse (.single hinsertion)
  refine ⟨hparse, hinsertion, t', ht', hspaces, fun h => ?_⟩
  exact absurd (heq.mp h) (by decide +kernel)

end TypeExpr

end TypeGuard
