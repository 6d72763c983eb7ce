import TypeGuard.Proofs.Grammar.Reading
import TypeGuard.Proofs.Grammar.Spaces

/-! # Tokens

A text falls into tokens, whether or not it is a type expression: texts in quotes, words and numbers
and placeholders, arrows, and single characters. Gaps are not part of any token, and may stand
wherever one token ends and the next begins.
-/

namespace TypeGuard.Grammar

open Text

def isJoint (c : Char) : Bool :=
  isWordPart c || c = '$' || c = '.' || c = '+' || c = '-'

def TokenBreak (rest : List Char) : Prop :=
  ∀ c ∈ rest.head?, isJoint c = false

/-- The token at the head of a text. A quote that is not closed is a token by itself. -/
def lexeme : Attempt (List Char) := fun cs =>
  match skipGaps cs with
  | [] => none
  | c :: rest =>
    if isJoint c then some (c :: rest.takeWhile isJoint, rest.dropWhile isJoint)
    else if c = '"' || c = '\'' then
      match quotedBody c rest with
      | some (body, rest) => some (c :: (body ++ [c]), rest)
      | none => some ([c], rest)
    else if c = '=' && rest.head? = some '>' then some (['=', '>'], rest.tail)
    else some ([c], rest)

def tokens (cs : List Char) : List (List Char) :=
  (many lexeme cs).1

inductive Token : List Char → List Char → Prop
  | joint {w rest} : w ≠ [] → (∀ c ∈ w, isJoint c = true) → TokenBreak rest → Token w rest
  | quoted {quote body rest} : (quote = '"' ∨ quote = '\'') → QuotedBody quote body →
      Token (quote :: (body ++ [quote])) rest
  | openQuote {quote rest} : (quote = '"' ∨ quote = '\'') → quotedBody quote rest = none →
      Token [quote] rest
  | arrow {rest} : Token ['=', '>'] rest
  | mark {c rest} : isGap c = false → isJoint c = false → ¬ (c = '"' ∨ c = '\'') →
      (c = '=' → rest.head? ≠ some '>') → Token [c] rest

variable {w cs rest : List Char}

theorem isGap_eq_false_of_isJoint {c : Char} (h : isJoint c = true) : isGap c = false := by
  simp only [isJoint, Bool.or_eq_true, decide_eq_true_eq] at h
  rcases h with (((h | rfl) | rfl) | rfl) | rfl
  · exact isGap_eq_false_of_isWordPart h
  all_goals rfl

theorem isJoint_eq_false_of_isGap {c : Char} (h : isGap c = true) : isJoint c = false := by
  by_contra hj
  rw [isGap_eq_false_of_isJoint (Bool.not_eq_false _ ▸ hj)] at h
  exact Bool.false_ne_true h

theorem isJoint_of_quote {quote : Char} (h : quote = '"' ∨ quote = '\'') :
    isJoint quote = false := by
  rcases h with rfl | rfl <;> rfl

theorem TokenBreak.wordBreak (h : TokenBreak rest) : WordBreak rest := by
  intro c hc
  have := h c hc
  simp only [isJoint, Bool.or_eq_false_iff] at this
  exact this.1.1.1.1

theorem Token.exists_cons (h : Token w rest) : ∃ c v, w = c :: v ∧ isGap c = false := by
  cases h with
  | joint hne hall =>
    obtain ⟨c, v, rfl⟩ := List.exists_cons_of_ne_nil hne
    exact ⟨c, v, rfl, isGap_eq_false_of_isJoint (hall c List.mem_cons_self)⟩
  | quoted hq => exact ⟨_, _, rfl, isGap_of_quote hq⟩
  | openQuote hq => exact ⟨_, _, rfl, isGap_of_quote hq⟩
  | arrow => exact ⟨_, _, rfl, rfl⟩
  | mark hg => exact ⟨_, _, rfl, hg⟩

theorem Token.spelled_iff (h : Token w rest) : Spelled w cs rest ↔ skipGaps cs = w ++ rest := by
  obtain ⟨c, v, rfl, hc⟩ := h.exists_cons
  exact Grammar.spelled_iff hc

/-! ## Where tokens end -/

theorem tokenBreak_of_gaps (h : ∀ c ∈ rest, isGap c = true) : TokenBreak rest :=
  fun c hc => isJoint_eq_false_of_isGap (h c (List.mem_of_mem_head? hc))

theorem Spelled.tokenBreak {c : Char} (h : Spelled (c :: w) cs rest) (hc : isJoint c = false) :
    TokenBreak cs := by
  obtain ⟨gaps, hgaps, rfl⟩ := h
  cases gaps with
  | nil => exact fun d hd => Option.some.inj hd ▸ hc
  | cons g gaps =>
    exact fun d hd => Option.some.inj hd ▸ isJoint_eq_false_of_isGap (hgaps g List.mem_cons_self)

theorem Suffixes.tokenBreak {n : ℕ} (h : Suffixes n cs rest) (hr : TokenBreak rest) :
    TokenBreak cs := by
  cases h with
  | zero => exact hr
  | succ h _ =>
    obtain ⟨_, -, h⟩ := h
    exact h.tokenBreak rfl

theorem Delimits.tokenBreak {d : Delimiter} (h : Delimits d cs rest) : TokenBreak cs := by
  obtain ⟨c, hc, h⟩ := h
  have hall : d.chars.all (!isJoint ·) = true := by cases d <;> rfl
  exact h.tokenBreak (by simpa using List.all_eq_true.mp hall c hc)

theorem Maybe.tokenBreak {token : List Char → List Char → Prop} (h : Maybe token cs rest)
    (ht : token cs rest → TokenBreak cs) (hr : TokenBreak rest) : TokenBreak cs := by
  rcases h with rfl | h
  · exact hr
  · exact ht h

theorem OptionalMark.tokenBreak {marked : Bool} (h : OptionalMark marked cs rest)
    (hr : TokenBreak rest) : TokenBreak cs := by
  cases marked with
  | true => exact Spelled.tokenBreak h rfl
  | false => exact (show rest = cs from h) ▸ hr

/-! ## The tokens of a text -/

theorem lexeme_eq_some_iff :
    lexeme cs = some (w, rest) ↔ Token w rest ∧ Spelled w cs rest := by
  constructor
  · intro h
    suffices Token w rest ∧ skipGaps cs = w ++ rest from ⟨this.1, spelled_of_skipGaps this.2⟩
    unfold lexeme at h
    split at h
    · cases h
    · next c r hcs =>
      rw [hcs]
      split_ifs at h with hj hq ha
      · obtain ⟨rfl, rfl⟩ := Prod.mk.inj (Option.some.inj h)
        refine ⟨.joint (List.cons_ne_nil _ _) ?_ (head?_dropWhile_false _ _), ?_⟩
        · exact List.forall_mem_cons.mpr ⟨hj, fun d hd => List.mem_takeWhile_imp hd⟩
        · rw [List.cons_append, List.takeWhile_append_dropWhile]
      · have hq' : c = '"' ∨ c = '\'' := by simpa using hq
        split at h
        · next body r' hbody =>
          obtain ⟨rfl, rfl⟩ := Prod.mk.inj (Option.some.inj h)
          obtain ⟨hquoted, rfl⟩ := quotedBody_sound hbody
          exact ⟨.quoted hq' hquoted, by simp⟩
        · next hnone =>
          obtain ⟨rfl, rfl⟩ := Prod.mk.inj (Option.some.inj h)
          exact ⟨.openQuote hq' hnone, rfl⟩
      · obtain ⟨rfl, rfl⟩ := Prod.mk.inj (Option.some.inj h)
        simp only [Bool.and_eq_true, decide_eq_true_eq] at ha
        obtain ⟨rfl, hr⟩ := ha
        obtain ⟨r', rfl⟩ := List.head?_eq_some_iff.mp hr
        exact ⟨.arrow, rfl⟩
      · obtain ⟨rfl, rfl⟩ := Prod.mk.inj (Option.some.inj h)
        refine ⟨.mark ?_ (by simpa using hj) (by simpa using hq) (by simpa using ha), rfl⟩
        have := head?_dropWhile_false isGap cs
        rw [skipGaps] at hcs
        exact this c (by rw [hcs]; rfl)
  · rintro ⟨ht, hs⟩
    rw [ht.spelled_iff] at hs
    unfold lexeme
    rw [hs]
    cases ht with
    | joint hne hall hr =>
      obtain ⟨c, v, rfl⟩ := List.exists_cons_of_ne_nil hne
      obtain ⟨hc, hv⟩ := List.forall_mem_cons.mp hall
      simp only [List.cons_append, if_pos hc, takeWhile_run hv hr, dropWhile_run hv hr]
    | @quoted quote body _ hq hbody =>
      have hs : quote ≠ '\\' := by rcases hq with rfl | rfl <;> decide
      simp [isJoint_of_quote hq, hq, quotedBody_complete hs hbody]
    | @openQuote quote _ hq hnone =>
      simp [isJoint_of_quote hq, hq, hnone]
    | arrow =>
      have hj : isJoint '=' = false := rfl
      simp [hj]
    | mark hg hj hq ha =>
      simp only [List.singleton_append, hj]
      simp [hq]
      exact ha

theorem lexeme_eq_none_iff : lexeme cs = none ↔ ∀ c ∈ cs, isGap c = true := by
  rw [← List.dropWhile_eq_nil_iff, ← skipGaps]
  unfold lexeme
  split
  · next h => simp [h]
  · next h =>
    rw [h]
    split_ifs
    · simp
    · split <;> simp
    · simp
    · simp

theorem lexeme_length_lt (h : lexeme cs = some (w, rest)) : rest.length < cs.length := by
  obtain ⟨ht, hs⟩ := lexeme_eq_some_iff.mp h
  obtain ⟨c, v, rfl, -⟩ := ht.exists_cons
  exact hs.length_lt

theorem tokens_of_gaps (h : ∀ c ∈ cs, isGap c = true) : tokens cs = [] := by
  rw [tokens, many_of_none (lexeme_eq_none_iff.mpr h)]

theorem tokens_nil : tokens [] = [] := rfl

theorem Token.tokens_eq (ht : Token w rest) (hs : Spelled w cs rest) :
    tokens cs = w :: tokens rest := by
  have h := lexeme_eq_some_iff.mpr ⟨ht, hs⟩
  obtain ⟨ws, r, hrep⟩ := exists_repeats (fun _ _ _ => lexeme_length_lt) rest
  rw [tokens, tokens, hrep.many_eq, (hrep.step h (lexeme_length_lt h)).many_eq]

/-- Induction over the tokens of a text. -/
@[elab_as_elim] theorem tokens_induction {P : List Char → Prop}
    (gaps : ∀ cs, (∀ c ∈ cs, isGap c = true) → P cs)
    (token : ∀ w cs rest, Token w rest → Spelled w cs rest → P rest → P cs) (cs : List Char) :
    P cs := by
  obtain ⟨ws, r, hrep⟩ := exists_repeats (p := lexeme) (fun _ _ _ => lexeme_length_lt) cs
  induction hrep with
  | stop h => exact gaps _ (lexeme_eq_none_iff.mp h)
  | step h _ _ ih =>
    obtain ⟨ht, hs⟩ := lexeme_eq_some_iff.mp h
    exact token _ _ _ ht hs ih

theorem exists_of_tokens_eq_cons {ws : List (List Char)} (h : tokens cs = w :: ws) :
    ∃ rest, Token w rest ∧ Spelled w cs rest ∧ tokens rest = ws := by
  cases cs using tokens_induction with
  | gaps cs hgaps => rw [tokens_of_gaps hgaps] at h; cases h
  | token v cs rest ht hs =>
    rw [ht.tokens_eq hs] at h
    obtain ⟨rfl, rfl⟩ := List.cons.inj h
    exact ⟨rest, ht, hs, rfl⟩

theorem tokens_eq_nil_iff : tokens cs = [] ↔ ∀ c ∈ cs, isGap c = true := by
  refine ⟨fun h => ?_, tokens_of_gaps⟩
  cases cs using tokens_induction with
  | gaps cs hgaps => exact hgaps
  | token w cs rest ht hs => rw [ht.tokens_eq hs] at h; cases h

theorem tokens_gaps_append {gaps : List Char} (h : ∀ c ∈ gaps, isGap c = true) (cs : List Char) :
    tokens (gaps ++ cs) = tokens cs := by
  cases cs using tokens_induction with
  | gaps cs hgaps =>
    rw [tokens_of_gaps hgaps, tokens_of_gaps (List.forall_mem_append.mpr ⟨h, hgaps⟩)]
  | token w cs rest ht hs =>
    obtain ⟨between, hbetween, rfl⟩ := hs
    have hall := List.forall_mem_append.mpr ⟨h, hbetween⟩
    rw [ht.tokens_eq ⟨between, hbetween, rfl⟩,
      ht.tokens_eq ⟨gaps ++ between, hall, (List.append_assoc _ _ _).symm⟩]

/-! ## Insertions -/

def Closed (cs : List Char) : Prop :=
  ∀ quote, quote = '"' ∨ quote = '\'' → [quote] ∉ tokens cs

/-- Gaps are put where a token ends and the next begins, or at an end of the text. -/
inductive Insertion : List Char → List Char → Prop
  | intro (before gaps after) : (∀ c ∈ gaps, isGap c = true) →
      tokens (before ++ after) = tokens before ++ tokens after →
      Insertion (before ++ after) (before ++ (gaps ++ after))

theorem Insertion.before_first {gaps : List Char} (h : ∀ c ∈ gaps, isGap c = true)
    (cs : List Char) : Insertion cs (gaps ++ cs) :=
  .intro [] gaps cs h (by rw [tokens_nil, List.nil_append, List.nil_append])

theorem Token.before_gap {g : Char} (h : Token w rest)
    (hopen : ∀ quote, quote = '"' ∨ quote = '\'' → w ≠ [quote]) (hg : isGap g = true)
    (after : List Char) : Token w (rest ++ g :: after) := by
  have hhead : ∀ c ∈ (rest ++ g :: after).head?, c ∈ rest.head? ∨ c = g := by
    cases rest <;> simp
  cases h with
  | joint hne hall hr =>
    refine .joint hne hall fun c hc => ?_
    rcases hhead c hc with hc | rfl
    · exact hr c hc
    · exact isJoint_eq_false_of_isGap hg
  | quoted hq hbody => exact .quoted hq hbody
  | openQuote hq => exact absurd rfl (hopen _ hq)
  | arrow => exact .arrow
  | mark hc hj hq ha =>
    refine .mark hc hj hq fun he hr => ?_
    rcases hhead _ hr with hr | rfl
    · exact ha he hr
    · exact absurd hg (by decide)

theorem tokens_append_gap {before : List Char} {g : Char} (h : Closed before)
    (hg : isGap g = true) (after : List Char) :
    tokens (before ++ g :: after) = tokens before ++ tokens after := by
  induction before using tokens_induction with
  | gaps cs hgaps =>
    have hall := List.forall_mem_append.mpr ⟨hgaps, List.forall_mem_singleton.mpr hg⟩
    rw [List.append_cons, tokens_gaps_append hall, tokens_of_gaps hgaps, List.nil_append]
  | token w cs rest ht hs ih =>
    rw [Closed, ht.tokens_eq hs] at h
    have hopen := fun quote hq => List.ne_of_not_mem_cons (h quote hq)
    have hrest : Closed rest := fun quote hq => List.not_mem_of_not_mem_cons (h quote hq)
    obtain ⟨gaps, hgaps, hcs⟩ := hs
    have hs' : Spelled w (cs ++ g :: after) (rest ++ g :: after) :=
      ⟨gaps, hgaps, by rw [hcs, List.append_assoc, List.append_assoc]⟩
    rw [(ht.before_gap (fun quote hq => (hopen quote hq).symm) hg after).tokens_eq hs', ih hrest,
      ht.tokens_eq ⟨gaps, hgaps, hcs⟩, List.cons_append]

theorem Insertion.tokens_eq {cs' : List Char} (h : Insertion cs cs') (hclosed : Closed cs) :
    tokens cs' = tokens cs := by
  obtain ⟨before, gaps, after, hgaps, hboundary⟩ := h
  cases gaps with
  | nil => rfl
  | cons g gaps =>
    obtain ⟨hg, hgaps⟩ := List.forall_mem_cons.mp hgaps
    have hbefore : Closed before := fun quote hq hmem =>
      hclosed quote hq (hboundary ▸ List.mem_append_left _ hmem)
    rw [List.cons_append, tokens_append_gap hbefore hg, tokens_gaps_append hgaps, hboundary]

theorem tokens_eq_of_insertions {cs' : List Char} (h : Relation.ReflTransGen Insertion cs cs')
    (hclosed : Closed cs) : tokens cs' = tokens cs := by
  induction h with
  | refl => rfl
  | @tail cs₁ _ _ hstep ih =>
    have hclosed₁ : Closed cs₁ := fun quote hq => ih ▸ hclosed quote hq
    rw [hstep.tokens_eq hclosed₁, ih]

/-! ## Tokens of laid-out texts -/

theorem Token.expandTabsFrom (h : Token w rest) (column column' : ℕ) :
    Token (expandTabsFrom column w) (expandTabsFrom column' rest) := by
  have hspace {quote : Char} (hq : quote = '"' ∨ quote = '\'') : quote ≠ ' ' := by
    rcases hq with rfl | rfl <;> decide
  have hhead {P : Char → Prop} (hspace : P ' ') (hr : ∀ c ∈ rest.head?, P c) :
      ∀ c ∈ (Text.expandTabsFrom column' rest).head?, P c := by
    intro c hc
    rw [head?_expandTabsFrom] at hc
    obtain ⟨d, hd, rfl⟩ := Option.map_eq_some_iff.mp hc
    split_ifs
    · exact hspace
    · exact hr d hd
  cases h with
  | joint hne hall hr =>
    have htab : '\t' ∉ w := fun hmem => absurd (hall _ hmem) (by decide)
    rw [expandTabsFrom_of_not_mem htab]
    exact .joint hne hall (hhead rfl hr)
  | @quoted quote body _ hq hbody =>
    have htab : quote ≠ '\t' := by rcases hq with rfl | rfl <;> decide
    have hquote : '\t' ∉ [quote] := fun hmem => htab (List.mem_singleton.mp hmem).symm
    obtain ⟨next, hnext⟩ := expandTabsFrom_cons htab column
    obtain ⟨last, hlast⟩ := expandTabsFrom_append next body
    rw [hnext, hlast, expandTabsFrom_of_not_mem hquote]
    exact .quoted hq (hbody.expandTabsFrom (hspace hq) next)
  | @openQuote quote _ hq hnone =>
    rw [expandTabsFrom_of_not_mem (by rcases hq with rfl | rfl <;> decide)]
    exact .openQuote hq (quotedBody_expandTabsFrom_eq_none (hspace hq) hnone column')
  | arrow =>
    rw [expandTabsFrom_of_not_mem (by decide)]
    exact .arrow
  | @mark c _ hg hj hq ha =>
    have htab : '\t' ∉ [c] := by
      rw [List.mem_singleton]
      rintro rfl
      exact absurd hg (by decide)
    rw [expandTabsFrom_of_not_mem htab]
    refine .mark hg hj hq fun hc hr => ?_
    exact hhead (P := (· ≠ '>')) (by decide) (fun d hd he => ha hc (he ▸ hd)) _ hr rfl

/-- The tokens of a text that is laid out are its tokens, laid out from where they begin. -/
theorem tokens_expandTabsFrom (column : ℕ) (cs : List Char) :
    List.Forall₂ LaidOut (tokens cs) (tokens (expandTabsFrom column cs)) := by
  induction cs using tokens_induction generalizing column with
  | gaps cs hgaps =>
    have hlaid := forall_mem_expandTabsFrom (by decide) hgaps column
    rw [tokens_of_gaps hgaps, tokens_of_gaps hlaid]
    exact .nil
  | token w cs rest ht hs ih =>
    rw [ht.tokens_eq hs]
    obtain ⟨gaps, hgaps, rfl⟩ := hs
    obtain ⟨start, hstart⟩ := expandTabsFrom_append column gaps
    obtain ⟨next, hnext⟩ := expandTabsFrom_append start w
    have hs' : Spelled (expandTabsFrom start w) (expandTabsFrom column (gaps ++ (w ++ rest)))
        (expandTabsFrom next rest) :=
      ⟨expandTabsFrom column gaps, forall_mem_expandTabsFrom (by decide) hgaps column,
        by rw [hstart, hnext]⟩
    rw [(ht.expandTabsFrom start next).tokens_eq hs']
    exact .cons ⟨start, rfl⟩ (ih next)

theorem Closed.of_expandTabsFrom {column : ℕ} (h : Closed (expandTabsFrom column cs)) :
    Closed cs := by
  intro quote hq hmem
  refine h quote hq (mem_of_laidOut (tokens_expandTabsFrom column cs) hmem ?_)
  rcases hq with rfl | rfl <;> decide

end TypeGuard.Grammar
