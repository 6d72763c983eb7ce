import TypeGuard.Error
import TypeGuard.TypeExpr.Tree
import TypeGuard.Proofs.Grammar.Recognition
import TypeGuard.Proofs.Grammar.Tokens
import TypeGuard.Proofs.TypeExpr.Subtrees

/-! # Placeholders in a text

A dollar sign outside the quotes of a text begins a placeholder, which goes on as far as a word
would. In a text that is a type these are the placeholders of its tree, in the order of the tree.
-/

namespace TypeGuard

namespace Text

open Grammar

/-! ## Dollar signs outside quotes -/

inductive QuoteMark where
  | single
  | double
deriving DecidableEq

def QuoteMark.char : QuoteMark → Char
  | single => '\''
  | double => '"'

inductive Quoting where
  | outside
  | inside (mark : QuoteMark)
  | escaped (mark : QuoteMark)
deriving DecidableEq

def Quoting.next : Quoting → Char → Quoting
  | outside, c => if c = '"' then inside .double else if c = '\'' then inside .single else outside
  | inside mark, c =>
    if c = mark.char then outside else if c = '\\' then escaped mark else inside mark
  | escaped mark, _ => inside mark

def Quoting.after (q : Quoting) (cs : List Char) : Quoting :=
  cs.foldl Quoting.next q

/-- The dollar signs outside quotes, each with the word characters after it. -/
def mentions : Quoting → List Char → List String
  | _, [] => []
  | .outside, '$' :: cs =>
    String.ofList ('$' :: cs.takeWhile isWordPart) :: mentions .outside cs
  | q, c :: cs => mentions (q.next c) cs

variable {q : Quoting} {c : Char} {w cs rest : List Char}

theorem mentions_of_escapes (h : ¬ (q = .outside ∧ c = '$')) :
    mentions q (c :: cs) = mentions (q.next c) cs := by
  rw [mentions]
  rintro rfl rfl
  exact h ⟨rfl, rfl⟩

theorem mentions_append (hw : '$' ∉ w) : mentions q (w ++ rest) = mentions (q.after w) rest := by
  induction w generalizing q with
  | nil => rfl
  | cons c w ih =>
    obtain ⟨hc, hw⟩ := not_or.mp (mt List.mem_cons.mpr hw)
    rw [List.cons_append, mentions_of_escapes fun h => hc h.2.symm, ih hw]
    rfl

theorem mentions_cons_congr {ds : List Char}
    (hrun : cs.takeWhile isWordPart = ds.takeWhile isWordPart)
    (h : ∀ q, mentions q cs = mentions q ds) : mentions q (c :: cs) = mentions q (c :: ds) := by
  by_cases hq : q = .outside ∧ c = '$'
  · obtain ⟨rfl, rfl⟩ := hq
    rw [mentions, mentions, hrun, h]
  · rw [mentions_of_escapes hq, mentions_of_escapes hq, h]

/-! ## Tokens -/

def isPlainChar (c : Char) : Bool :=
  !(c = '$' || c = '"' || c = '\'')

theorem isPlainChar_iff : isPlainChar c = true ↔ c ≠ '$' ∧ c ≠ '"' ∧ c ≠ '\'' := by
  simp [isPlainChar, and_assoc]

theorem isPlainChar_of_isBlank (h : isBlank c = true) : isPlainChar c = true := by
  rw [isPlainChar_iff]
  refine ⟨?_, ?_, ?_⟩ <;>
  · rintro rfl
    exact absurd h (by decide)

theorem isPlainChar_of_isWordPart (h : isWordPart c = true) : isPlainChar c = true := by
  rw [isPlainChar_iff]
  refine ⟨?_, ?_, ?_⟩ <;>
  · rintro rfl
    exact absurd h (by decide)

theorem after_outside_of_plain (hw : ∀ c ∈ w, isPlainChar c = true) :
    Quoting.outside.after w = .outside := by
  induction w with
  | nil => rfl
  | cons c w ih =>
    obtain ⟨hc, hw⟩ := List.forall_mem_cons.mp hw
    obtain ⟨-, hdouble, hsingle⟩ := isPlainChar_iff.mp hc
    have hnext : Quoting.outside.next c = .outside := (if_neg hdouble).trans (if_neg hsingle)
    rw [Quoting.after, List.foldl_cons, hnext]
    exact ih hw

theorem mentions_plain (hw : ∀ c ∈ w, isPlainChar c = true) :
    mentions .outside (w ++ rest) = mentions .outside rest := by
  rw [mentions_append fun h => (isPlainChar_iff.mp (hw _ h)).1 rfl, after_outside_of_plain hw]

end Text

open Text Grammar

namespace Grammar

variable {w cs rest : List Char}

theorem Spelled.mentions_gaps (h : Spelled w cs rest) :
    mentions .outside cs = mentions .outside (w ++ rest) := by
  obtain ⟨gaps, hgaps, rfl⟩ := h
  exact mentions_plain fun c hc => isPlainChar_of_isBlank (isBlank_of_isGap (hgaps c hc))

theorem Spelled.mentions_eq (h : Spelled w cs rest) (hw : w.all isPlainChar = true) :
    mentions .outside cs = mentions .outside rest := by
  rw [h.mentions_gaps, mentions_plain (List.all_eq_true.mp hw)]

theorem Word.mentions_eq {name : String} (h : Word name cs rest) :
    mentions .outside cs = mentions .outside rest :=
  h.spelled.mentions_eq <| List.all_eq_true.mpr fun c hc =>
    isPlainChar_of_isWordPart (h.isWord.all c hc)

/-- Nothing between quotes is a mention. -/
theorem mentions_quotedBody {mark : QuoteMark} {body : List Char}
    (h : QuotedBody mark.char body) :
    mentions (.inside mark) (body ++ mark.char :: rest) = mentions .outside rest := by
  have hback : '\\' ≠ mark.char := by cases mark <;> decide
  induction h with
  | nil => simp [mentions, Quoting.next]
  | escape _ _ ih => simp [mentions, Quoting.next, hback, ih]
  | plain hquote hne _ _ _ ih => simp [mentions, Quoting.next, hquote, hne, ih]

theorem Quoted.mentions_eq {s : String} (h : Quoted s cs rest) :
    mentions .outside cs = mentions .outside rest := by
  obtain ⟨quote, body, hq, hbody, -, h⟩ := h
  obtain ⟨mark, rfl, hnext⟩ :
      ∃ mark : QuoteMark, mark.char = quote ∧ Quoting.outside.next quote = .inside mark := by
    rcases hq with rfl | rfl
    · exact ⟨.double, rfl, rfl⟩
    · exact ⟨.single, rfl, rfl⟩
  have hdollar : mark.char ≠ '$' := by cases mark <;> decide
  rw [h.mentions_gaps, List.cons_append, mentions_of_escapes fun h => hdollar h.2, hnext,
    List.append_assoc, List.singleton_append, mentions_quotedBody hbody]

theorem NumberLiteral.mentions_eq {v : Literal} (h : NumberLiteral v cs rest) :
    mentions .outside cs = mentions .outside rest := by
  obtain ⟨n, w, hw, -, hs⟩ := h
  refine hs.mentions_eq (List.all_eq_true.mpr fun c hc => ?_)
  rcases hw.char c hc with hd | hm
  · exact isPlainChar_of_isWordPart (isWordPart_of_isDigit hd)
  · have hall : ['-', '+', '.', 'e', 'E'].all isPlainChar = true := rfl
    exact List.all_eq_true.mp hall c hm

theorem mentions_placeholder {name : String} (hn : IsPlaceholder name.toList)
    (h : Spelled name.toList cs rest) (hr : WordBreak rest) :
    mentions .outside cs = name :: mentions .outside rest := by
  obtain ⟨digits, hname, -, hall⟩ := hn
  have hword : ∀ c ∈ 'R' :: 'e' :: 'f' :: digits, isWordPart c = true := by
    have hdigits := fun c hc => isWordPart_of_isDigit (hall c hc)
    simp only [List.forall_mem_cons]
    exact ⟨rfl, rfl, rfl, hdigits⟩
  rw [h.mentions_gaps, hname, List.cons_append, mentions, takeWhile_run hword hr, ← hname,
    String.ofList_toList, mentions_plain fun c hc => isPlainChar_of_isWordPart (hword c hc)]

theorem Delimits.mentions_eq {d : Delimiter} (h : Delimits d cs rest) :
    mentions .outside cs = mentions .outside rest := by
  obtain ⟨c, hc, h⟩ := h
  have hall : d.chars.all isPlainChar = true := by cases d <;> rfl
  exact h.mentions_eq (by simpa using List.all_eq_true.mp hall c hc)

theorem ArraySuffix.mentions_eq (h : ArraySuffix cs rest) :
    mentions .outside cs = mentions .outside rest := by
  obtain ⟨blanks, hblanks, h⟩ := h
  have hall : ∀ c ∈ blanks, isPlainChar c = true :=
    fun c hc => isPlainChar_of_isBlank (hblanks c hc)
  refine h.mentions_eq ?_
  rw [List.all_cons, List.all_append, List.all_eq_true.mpr hall]
  rfl

theorem Suffixes.mentions_eq {n : ℕ} (h : Suffixes n cs rest) :
    mentions .outside cs = mentions .outside rest := by
  induction h with
  | zero => rfl
  | succ h _ ih => exact h.mentions_eq.trans ih

theorem Maybe.mentions_eq {token : List Char → List Char → Prop} (h : Maybe token cs rest)
    (ht : token cs rest → mentions .outside cs = mentions .outside rest) :
    mentions .outside cs = mentions .outside rest := by
  rcases h with rfl | h
  · rfl
  · exact ht h

theorem PropertyKey.mentions_eq {key : String} (h : PropertyKey key cs rest) :
    mentions .outside cs = mentions .outside rest :=
  h.elim Word.mentions_eq Quoted.mentions_eq

theorem OptionalMark.mentions_eq {marked : Bool} (h : OptionalMark marked cs rest) :
    mentions .outside cs = mentions .outside rest := by
  cases marked with
  | true => exact Spelled.mentions_eq h rfl
  | false => exact congrArg _ (Eq.symm h)

end Grammar

/-! ## Trees -/

namespace TypeExpr

def placeholder? : TypeExpr → Option String
  | named name => if placeholderPrefix.toList <+: name.toList then some name else none
  | _ => none

/-- The names in a type that begin like a placeholder, in the order of its subtrees. -/
def placeholders (t : TypeExpr) : List String :=
  t.subtrees.filterMap placeholder?

theorem prefix_of_mem_placeholders {t : TypeExpr} {name : String} (h : name ∈ t.placeholders) :
    placeholderPrefix.toList <+: name.toList := by
  obtain ⟨u, -, hu⟩ := List.mem_filterMap.mp h
  unfold placeholder? at hu
  split at hu
  · split_ifs at hu with hp
    rwa [← Option.some.inj hu]
  · cases hu

theorem placeholders_eq_children (t : TypeExpr) :
    t.placeholders = t.placeholder?.toList ++ t.children.flatMap placeholders := by
  rw [placeholders, subtrees_eq_children, List.filterMap_cons, List.filterMap_flatMap]
  cases t.placeholder? <;> rfl

theorem placeholders_of_children {t : TypeExpr} (h : t.placeholder? = none) :
    t.placeholders = t.children.flatMap placeholders := by
  rw [placeholders_eq_children, h]
  rfl

theorem placeholders_nullable (t : TypeExpr) :
    (nullable t).placeholders = t.placeholders := by
  rw [placeholders_of_children rfl]
  simp [children]

theorem placeholders_array (n : ℕ) (t : TypeExpr) :
    (array^[n] t).placeholders = t.placeholders := by
  induction n generalizing t with
  | zero => rfl
  | succ n ih =>
    rw [Function.iterate_succ_apply, ih, placeholders_of_children rfl]
    simp [children]

theorem placeholders_object (ps : List (Property TypeExpr)) :
    (object ps).placeholders = ps.flatMap fun p => p.value.placeholders := by
  rw [placeholders_of_children rfl]
  simp [children, List.flatMap_map]

theorem placeholders_function (ps : List TypeExpr) (t : TypeExpr) :
    (function ps t).placeholders = ps.flatMap placeholders ++ t.placeholders := by
  rw [placeholders_of_children rfl]
  simp [children]

theorem placeholders_foldMembers {node : List TypeExpr → TypeExpr}
    (h : ∀ ts, (node ts).placeholders = ts.flatMap placeholders) (ts : List TypeExpr) :
    (foldMembers node ts).placeholders = ts.flatMap placeholders := by
  unfold foldMembers
  split
  · rw [List.flatMap_singleton]
  · exact h ts

theorem placeholders_keyword {word : String} {t : TypeExpr} (h : Keyword word t) :
    t.placeholders = [] := by
  cases h <;> rfl

theorem placeholders_word {name : String} {cs rest : List Char} (h : Word name cs rest) :
    (named name).placeholders = [] := by
  obtain ⟨c, w, hw, hc, -⟩ := h.isWord
  have hnot : ¬ placeholderPrefix.toList <+: name.toList := by
    rw [hw]
    intro hp
    obtain rfl : '$' = c := (List.cons_prefix_cons.mp hp).1
    exact absurd hc (by decide)
  rw [placeholders_eq_children, placeholder?, if_neg hnot]
  rfl

theorem placeholders_of_isPlaceholder {name : String} (h : IsPlaceholder name.toList) :
    (named name).placeholders = [name] := by
  obtain ⟨digits, hname, -⟩ := h
  have hp : placeholderPrefix.toList <+: name.toList := ⟨digits, hname.symm⟩
  rw [placeholders_eq_children, placeholder?, if_pos hp]
  rfl

end TypeExpr

namespace Grammar

open TypeExpr

/-! ## Phrases -/

def Symbol.placeholders : (s : Symbol) → s.Value → List String
  | .property => fun p => p.value.placeholders
  | .list _ item => List.flatMap item.placeholders
  | .optional _ item => List.flatMap item.placeholders
  | .type | .function | .param | .union | .intersection | .nullable | .suffixed | .primary =>
    TypeExpr.placeholders

/-- The mentions in a phrase are the placeholders of what it denotes. -/
theorem Phrase.mentions_eq {s : Symbol} {cs v rest} (h : Phrase s cs v rest)
    (hr : TokenBreak rest) :
    mentions .outside cs = s.placeholders v ++ mentions .outside rest := by
  induction h with
  | ofFunction _ ih | ofUnion _ ih | ofSuffixed _ ih => exact ih hr
  | function h₁ _ h₃ h₄ _ ih₂ ih₅ =>
    rw [h₁.mentions_eq rfl, ih₂ (h₃.tokenBreak rfl), h₃.mentions_eq rfl,
      h₄.mentions_eq rfl, ih₅ hr, ← List.append_assoc]
    exact congrArg (· ++ _) (placeholders_function _ _).symm
  | param h _ ih =>
    refine (h.mentions_eq ?_).trans (ih hr)
    rintro ⟨name, r, hw, hc⟩
    rw [hw.mentions_eq, hc.mentions_eq rfl]
  | union h _ ih | intersection h _ ih =>
    rw [h.mentions_eq fun h => h.mentions_eq rfl, ih hr]
    refine congrArg (· ++ _) (placeholders_foldMembers ?_ _).symm
    exact fun _ => placeholders_of_children rfl
  | nullable h _ ih =>
    rw [h.mentions_eq rfl, ih hr]
    exact congrArg (· ++ _) (placeholders_nullable _).symm
  | suffixed _ h ih =>
    rw [ih (h.tokenBreak hr), h.mentions_eq, Symbol.placeholders, Symbol.placeholders,
      placeholders_array]
  | keyword h hk =>
    rw [h.mentions_eq, Symbol.placeholders, placeholders_keyword hk, List.nil_append]
  | number h =>
    rw [h.mentions_eq]
    rfl
  | string h =>
    rw [h.mentions_eq]
    rfl
  | placeholder hn h =>
    rw [mentions_placeholder hn h hr.wordBreak, Symbol.placeholders,
      placeholders_of_isPlaceholder hn]
    rfl
  | name h =>
    rw [h.mentions_eq, Symbol.placeholders, placeholders_word h, List.nil_append]
  | arrayOf h₁ h₂ _ h₄ ih =>
    rw [h₁.mentions_eq, h₂.mentions_eq rfl, ih (h₄.tokenBreak rfl), h₄.mentions_eq rfl]
    exact congrArg (· ++ _) (placeholders_array 1 _).symm
  | group h₁ _ h₃ ih =>
    rw [h₁.mentions_eq rfl, ih (h₃.tokenBreak rfl), h₃.mentions_eq rfl]
    rfl
  | tuple h₁ _ h₃ ih =>
    rw [h₁.mentions_eq rfl, ih (h₃.tokenBreak rfl), h₃.mentions_eq rfl]
    exact congrArg (· ++ _) (placeholders_of_children (t := TypeExpr.tuple _) rfl).symm
  | emptyObject h₁ h₂ =>
    rw [h₁.mentions_eq rfl, h₂.mentions_eq rfl]
    rfl
  | object h₁ _ h₃ h₄ ih =>
    have hbreak := h₃.tokenBreak Delimits.tokenBreak (h₄.tokenBreak rfl)
    rw [h₁.mentions_eq rfl, ih hbreak, h₃.mentions_eq Delimits.mentions_eq, h₄.mentions_eq rfl]
    exact congrArg (· ++ _) (placeholders_object _).symm
  | property h₁ h₂ h₃ _ ih =>
    rw [h₁.mentions_eq, h₂.mentions_eq, h₃.mentions_eq rfl, ih hr]
    rfl
  | single _ ih =>
    rw [ih hr]
    exact congrArg (· ++ _) (List.append_nil _).symm
  | cons _ h _ ih₁ ih₂ =>
    rw [ih₁ h.tokenBreak, h.mentions_eq, ih₂ hr, ← List.append_assoc]
    rfl
  | absent => rfl
  | present _ ih => exact ih hr

/-! ## Texts -/

theorem takeWhile_expandTabsFrom (column : ℕ) (cs : List Char) :
    (expandTabsFrom column cs).takeWhile isWordPart = cs.takeWhile isWordPart := by
  induction cs generalizing column with
  | nil => rfl
  | cons c cs ih =>
    by_cases hc : c = '\t'
    · obtain ⟨n, hn⟩ := exists_tabWidth column
      rw [hc, expandTabsFrom_tab, hn, List.replicate_succ, List.cons_append,
        List.takeWhile_cons_of_neg (by decide), List.takeWhile_cons_of_neg (by decide)]
    · obtain ⟨next, hnext⟩ := expandTabsFrom_cons hc column
      rw [hnext, List.takeWhile_cons, List.takeWhile_cons, ih]

theorem after_spaces (q : Quoting) (k : ℕ) :
    q.after (List.replicate (k + 1) ' ') = q.next '\t' := by
  have hstay {q : Quoting} (h : q.next ' ' = q) (k : ℕ) : q.after (List.replicate k ' ') = q := by
    induction k with
    | zero => rfl
    | succ k ih => rwa [List.replicate_succ, Quoting.after, List.foldl_cons, h]
  have hinside (mark : QuoteMark) : (Quoting.inside mark).next ' ' = .inside mark := by
    cases mark <;> rfl
  cases q with
  | outside => exact hstay rfl _
  | inside mark =>
    rw [hstay (hinside mark)]
    cases mark <;> rfl
  | escaped mark => exact hstay (hinside mark) k

theorem mentions_expandTabsFrom (q : Quoting) (column : ℕ) (cs : List Char) :
    mentions q (expandTabsFrom column cs) = mentions q cs := by
  induction cs generalizing q column with
  | nil => rfl
  | cons c cs ih =>
    by_cases hc : c = '\t'
    · have hspaces (k : ℕ) : '$' ∉ List.replicate k ' ' := fun h =>
        absurd (List.eq_of_mem_replicate h) (by decide)
      obtain ⟨k, hk⟩ := exists_tabWidth column
      rw [hc, expandTabsFrom_tab, mentions_append (hspaces _), hk, after_spaces, ih,
        mentions_of_escapes (by simp)]
    · obtain ⟨next, hnext⟩ := expandTabsFrom_cons hc column
      rw [hnext]
      exact mentions_cons_congr (takeWhile_expandTabsFrom next cs) fun q => ih q next

/-- The placeholders of a type are the mentions in its text. -/
theorem Derives.placeholders_eq {cs : List Char} {t : TypeExpr} (h : Derives cs t) :
    t.placeholders = mentions .outside cs := by
  obtain ⟨rest, h, hgaps⟩ := h
  have hnone : mentions .outside rest = [] := by
    rw [← List.append_nil rest, mentions_plain fun c hc =>
      isPlainChar_of_isBlank (isBlank_of_isGap (hgaps c hc))]
    rfl
  rw [h.mentions_eq (tokenBreak_of_gaps hgaps), hnone, List.append_nil]
  rfl

end Grammar

open Grammar

theorem TypeExpr.placeholders_of_parse {source : String} {t : TypeExpr}
    (h : TypeExpr.parse source = .ok t) : t.placeholders = mentions .outside source.toList := by
  rw [(parse_eq_ok_iff.mp h).placeholders_eq, expandTabs, mentions_expandTabsFrom]

end TypeGuard
