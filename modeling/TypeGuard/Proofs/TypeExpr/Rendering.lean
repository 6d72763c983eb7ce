import TypeGuard.TypeExpr.Render
import TypeGuard.Proofs.TypeExpr.Grammatical
import TypeGuard.Proofs.TypeExpr.Subtrees
import TypeGuard.Proofs.TypeExpr.Texts
import TypeGuard.Proofs.Grammar.Requoting
import TypeGuard.Proofs.Number.Range

/-! # Rendering as phrases

A grammatical tree whose numbers are finite is written as a phrase of the symbol for the level of
its place. The phrase denotes the tree with all its texts reread. Parentheses make a phrase of any
level one of the strongest.
-/

namespace TypeGuard

open Grammar TypeExpr

/-! ## Plain trees -/

/-- Whether a literal is written so that it can be read: printable ASCII text, a finite number. -/
def Literal.IsPlain : Literal → Prop
  | str s => ∀ c ∈ s.toList, IsPrintableAscii c
  | float x => x.IsFinite
  | _ => True

namespace TypeExpr

def HasPlainRoot : TypeExpr → Prop
  | literal v => v.IsPlain
  | object ps => ∀ p ∈ ps, ∀ c ∈ p.key.toList, IsPrintableAscii c
  | _ => True

def IsPlain (t : TypeExpr) : Prop :=
  ∀ u ∈ t.subtrees, u.HasPlainRoot

theorem IsPlain.child {t u : TypeExpr} (h : t.IsPlain) (hu : u ∈ t.children) : u.IsPlain :=
  fun v hv => h v (subtrees_subset_of_mem_children hu hv)

theorem IsPlain.root {t : TypeExpr} (h : t.IsPlain) : t.HasPlainRoot :=
  h t (mem_subtrees_self t)

def IsFinite (t : TypeExpr) : Prop :=
  ∀ x, literal (.float x) ∈ t.subtrees → x.IsFinite

theorem IsFinite.child {t u : TypeExpr} (h : t.IsFinite) (hu : u ∈ t.children) : u.IsFinite :=
  fun x hx => h x (subtrees_subset_of_mem_children hu hx)

theorem IsPlain.isFinite {t : TypeExpr} (h : t.IsPlain) : t.IsFinite :=
  fun _ hx => h _ hx

end TypeExpr

/-! ## Writing phrases -/

/-- The text is a phrase wherever no word goes on after it, and lays out as it is. -/
structure Writes (s : Symbol) (cs : List Char) (v : s.Value) : Prop where
  noTab : '\t' ∉ cs
  phrase : ∀ rest, WordBreak rest → Phrase s (cs ++ rest) v rest

def WritesAt : Level → List Char → TypeExpr → Prop
  | .function => Writes .type
  | .union => Writes .union
  | .intersection => Writes .intersection
  | .nullable => Writes .nullable
  | .primary => Writes .primary

theorem spelled_append (w rest : List Char) : Spelled w (w ++ rest) rest :=
  ⟨[], by simp, rfl⟩

theorem Writes.imp {s s' : Symbol} {cs : List Char} {v : s.Value} {v' : s'.Value}
    (h : Writes s cs v) (hp : ∀ {cs rest}, Phrase s cs v rest → Phrase s' cs v' rest) :
    Writes s' cs v' :=
  ⟨h.noTab, fun rest hr => hp (h.phrase rest hr)⟩

section Levels

variable {cs : List Char} {t : TypeExpr}

theorem Writes.nullable_of_primary (h : Writes .primary cs t) : Writes .nullable cs t :=
  h.imp fun h => .ofSuffixed (.suffixed h .zero)

theorem Writes.intersection_of_nullable (h : Writes .nullable cs t) : Writes .intersection cs t :=
  h.imp fun h => .intersection (.inl rfl) (.single h)

theorem Writes.union_of_intersection (h : Writes .intersection cs t) : Writes .union cs t :=
  h.imp fun h => .union (.inl rfl) (.single h)

theorem Writes.type_of_union (h : Writes .union cs t) : Writes .type cs t :=
  h.imp .ofUnion

theorem WritesAt.loosen {strong weak : Level} (h : WritesAt strong cs t)
    (hr : weak.rank ≤ strong.rank) : WritesAt weak cs t := by
  cases strong with
  | function =>
    cases weak with
    | function => exact h
    | _ => exact absurd hr (by decide)
  | union =>
    cases weak with
    | function => exact Writes.type_of_union h
    | union => exact h
    | _ => exact absurd hr (by decide)
  | intersection =>
    have hu := Writes.union_of_intersection h
    cases weak with
    | function => exact hu.type_of_union
    | union => exact hu
    | intersection => exact h
    | _ => exact absurd hr (by decide)
  | nullable =>
    have hi := Writes.intersection_of_nullable h
    have hu := hi.union_of_intersection
    cases weak with
    | function => exact hu.type_of_union
    | union => exact hu
    | intersection => exact hi
    | nullable => exact h
    | primary => exact absurd hr (by decide)
  | primary =>
    have hn := Writes.nullable_of_primary h
    have hi := hn.intersection_of_nullable
    have hu := hi.union_of_intersection
    cases weak with
    | function => exact hu.type_of_union
    | union => exact hu
    | intersection => exact hi
    | nullable => exact hn
    | primary => exact h

theorem WritesAt.ofPrimary {required : Level} (h : Writes .primary cs t) :
    WritesAt required cs t := by
  have hp : WritesAt .primary cs t := h
  exact hp.loosen (by cases required <;> decide)

theorem WritesAt.parenthesize {level required : Level} (h : WritesAt level cs t) :
    WritesAt required (TypeGuard.parenthesize level required cs) t := by
  unfold TypeGuard.parenthesize
  split
  · have ht : WritesAt .function cs t := h.loosen (Nat.zero_le _)
    refine .ofPrimary ⟨by simp [ht.noTab], fun rest _ => ?_⟩
    have hclose := spelled_append [')'] rest
    have hinner := ht.phrase (')' :: rest) (wordBreak_cons _ rfl)
    simpa using Phrase.group (spelled_append ['('] _) hinner hclose
  · next hr => exact h.loosen (not_lt.mp hr)

end Levels

/-! ## Leaves -/

theorem isWordPart_ne_tab {c : Char} (h : isWordPart c = true) : c ≠ '\t' := by
  rintro rfl
  exact absurd h (by decide)

theorem word_append {name : String} (hw : IsWord name.toList) {rest : List Char}
    (hr : WordBreak rest) : Word name (name.toList ++ rest) rest :=
  ⟨hw, spelled_append _ _, hr⟩

theorem noTab_of_isWord {w : List Char} (hw : IsWord w) : '\t' ∉ w :=
  fun h => isWordPart_ne_tab (hw.all _ h) rfl

theorem writes_name {name : String} (h : IsName name) : Writes .primary name.toList (named name) := by
  rcases h with hp | ⟨hw, hk⟩
  · refine ⟨?_, fun rest _ => .placeholder hp (spelled_append _ _)⟩
    obtain ⟨digits, hd, -, hall⟩ := hp
    rw [hd]
    intro ht
    simp only [List.mem_cons, Char.reduceEq, false_or] at ht
    exact absurd (hall _ ht) (by decide)
  · exact ⟨noTab_of_isWord hw, fun rest hr => .name (word_append hw hr) hk⟩

theorem writes_keyword {word : String} {t : TypeExpr} (hk : Keyword word t) :
    Writes .primary word.toList t :=
  ⟨noTab_of_isWord hk.isWord, fun _ hr => .keyword (word_append hk.isWord hr) hk⟩

theorem noTab_of_spelling {n : Numeral} {w : List Char} (h : n.Spelling w) : '\t' ∉ w :=
  fun ht => absurd (h.char _ ht) (by decide)

theorem writes_numeral {n : Numeral} {w : List Char} (h : n.Spelling w) :
    Writes .primary w (literal n.literal) :=
  ⟨noTab_of_spelling h, fun _ _ => .number ⟨n, w, h, rfl, spelled_append _ _⟩⟩

theorem writes_literal {v : Literal} (hv : v.IsCanonical) (hfinite : ∀ x, v = .float x → x.IsFinite) :
    Writes .primary v.chars (literal (v.mapText reread)) := by
  cases v with
  | bool b =>
    cases b with
    | true => exact writes_keyword .true
    | false => exact writes_keyword .false
  | str s => exact ⟨noTab_literal s.toList, fun rest _ => .string (quoted_literal s rest)⟩
  | int i =>
    obtain ⟨n, hn, hi⟩ := Numeral.exists_spelling_int i
    have hwrites := writes_numeral hn
    rwa [hi] at hwrites
  | float x =>
    cases x with
    | finite negative significand exponent =>
      obtain ⟨n, hn, hx⟩ := Binary64.exists_spelling hv
      have hwrites := writes_numeral hn
      rwa [hx] at hwrites
    | _ => exact (hfinite _ rfl).elim

theorem writes_of_keyword {name : String} {t : TypeExpr} (h : Keyword name t) (required : Level) :
    WritesAt required (t.render (fun _ => none) required) (t.mapTexts reread) := by
  refine .ofPrimary ?_
  cases h with
  | true => exact writes_keyword .true
  | false => exact writes_keyword .false
  | string => exact writes_keyword .string
  | number => exact writes_keyword .number
  | boolean | bool => exact writes_keyword .bool
  | null => exact writes_keyword .null
  | void => exact writes_keyword .void
  | any => exact writes_keyword .any

/-! ## Lists -/

structure Separates (d : Delimiter) (separator : List Char) : Prop where
  noTab : '\t' ∉ separator
  wordBreak : ∀ rest, WordBreak (separator ++ rest)
  delimits : ∀ rest, Delimits d (separator ++ rest) (' ' :: rest)

theorem separates_comma : Separates .comma [',', ' '] :=
  ⟨by decide, fun _ => wordBreak_cons _ rfl,
    fun rest => ⟨',', by decide, spelled_append [','] (' ' :: rest)⟩⟩

theorem separates_property : Separates .commaOrSemicolon [',', ' '] :=
  ⟨by decide, fun _ => wordBreak_cons _ rfl,
    fun rest => ⟨',', by decide, spelled_append [','] (' ' :: rest)⟩⟩

theorem separates_bar : Separates .bar [' ', '|', ' '] :=
  ⟨by decide, fun _ => wordBreak_cons _ rfl,
    fun rest => ⟨'|', by decide, (spelled_append ['|'] (' ' :: rest)).cons_gap rfl⟩⟩

theorem separates_ampersand : Separates .ampersand [' ', '&', ' '] :=
  ⟨by decide, fun _ => wordBreak_cons _ rfl,
    fun rest => ⟨'&', by decide, (spelled_append ['&'] (' ' :: rest)).cons_gap rfl⟩⟩

section Lists

variable {d : Delimiter} {s : Symbol}

theorem Writes.single {cs : List Char} {v : s.Value} (h : Writes s cs v) :
    Writes (.list d s) cs [v] :=
  h.imp .single

theorem Writes.cons {separator cs ds : List Char} {v : s.Value} {vs : List s.Value}
    (hsep : Separates d separator) (hs : s.Nonempty) (h : Writes s cs v)
    (h' : Writes (.list d s) ds vs) : Writes (.list d s) (cs ++ separator ++ ds) (v :: vs) := by
  refine ⟨by simp [h.noTab, hsep.noTab, h'.noTab], fun rest hr => ?_⟩
  have htail : Phrase (.list d s) (' ' :: (ds ++ rest)) vs rest :=
    (h'.phrase rest hr).cons_gap hs rfl
  have hhead := h.phrase (separator ++ (ds ++ rest)) (hsep.wordBreak _)
  simpa using Phrase.cons hhead (hsep.delimits _) htail

theorem writes_renderAll (s : Symbol) {separator : List Char} {required : Level} (value : TypeExpr → s.Value)
    (hsep : Separates d separator) (hs : s.Nonempty) {ts : List TypeExpr} (hne : ts ≠ [])
    (h : ∀ t ∈ ts, Writes s (t.render (fun _ => none) required) (value t)) :
    Writes (.list d s) (render.renderAll (fun _ => none) required separator ts)
      (ts.map value) := by
  induction ts with
  | nil => exact absurd rfl hne
  | cons t ts ih =>
    obtain ⟨ht, hts⟩ := List.forall_mem_cons.mp h
    cases ts with
    | nil => exact ht.single
    | cons u us => exact ht.cons hsep hs (ih (by simp) hts)

end Lists

theorem writes_property {p : Property TypeExpr} {t : TypeExpr}
    (h : Writes .type (p.value.render (fun _ => none) .function) t) :
    Writes .property (Text.literal p.key.toList ++ (if p.optional then ['?'] else []) ++ [':', ' '] ++
      p.value.render (fun _ => none) .function) ⟨reread p.key, p.optional, t⟩ := by
  obtain ⟨key, marked, value⟩ := p
  refine ⟨?_, fun rest hr => ?_⟩
  · cases marked <;> simp [noTab_literal, h.noTab]
  · have hvalue : Phrase .type (' ' :: (value.render (fun _ => none) .function ++ rest)) t rest :=
      (h.phrase rest hr).cons_gap trivial rfl
    have hcolon := spelled_append [':'] (' ' :: (value.render (fun _ => none) .function ++ rest))
    have hmark : OptionalMark marked ((if marked then ['?'] else []) ++
        (':' :: ' ' :: (value.render (fun _ => none) .function ++ rest)))
        (':' :: ' ' :: (value.render (fun _ => none) .function ++ rest)) := by
      cases marked with
      | true => exact spelled_append ['?'] _
      | false => rfl
    simpa using Phrase.property (.inr (quoted_literal key _)) hmark hcolon hvalue

def rereadProperty (p : Property TypeExpr) : Property TypeExpr :=
  ⟨reread p.key, p.optional, p.value.mapTexts reread⟩

theorem writes_renderProperties {ps : List (Property TypeExpr)} (hne : ps ≠ [])
    (h : ∀ p ∈ ps,
      Writes .type (p.value.render (fun _ => none) .function) (p.value.mapTexts reread)) :
    Writes (.list .commaOrSemicolon .property)
      (render.renderProperties (fun _ => none) ps) (ps.map rereadProperty) := by
  induction ps with
  | nil => exact absurd rfl hne
  | cons p ps ih =>
    obtain ⟨hp, hps⟩ := List.forall_mem_cons.mp h
    have hproperty : Writes .property _ (rereadProperty p) := writes_property hp
    cases ps with
    | nil => exact hproperty.single
    | cons q qs => exact hproperty.cons separates_property trivial (ih (by simp) hps)

/-! ## Trees -/

section Trees

variable {ts : List TypeExpr} {t : TypeExpr} {cs : List Char}

theorem foldMembers_eq (node : List TypeExpr → TypeExpr) (h : 2 ≤ ts.length) :
    foldMembers node ts = node ts := by
  match ts, h with
  | _ :: _ :: _, _ => rfl

theorem writes_array (h : Writes .type cs t) :
    Writes .primary ("Array<".toList ++ cs ++ ['>']) (array t) := by
  refine ⟨by simp [h.noTab], fun rest _ => ?_⟩
  have hclose := spelled_append ['>'] rest
  have helement := h.phrase ('>' :: rest) (wordBreak_cons _ rfl)
  have hopen := spelled_append ['<'] (cs ++ '>' :: rest)
  have harray : IsWord "Array".toList := isWord_of_test rfl rfl
  have hword : Word "Array" ("Array".toList ++ _) _ :=
    word_append harray (wordBreak_cons (cs ++ '>' :: rest) (show isWordPart '<' = false from rfl))
  simpa using Phrase.arrayOf hword hopen helement hclose

theorem writes_tuple
    (h : ∀ t ∈ ts, Writes .type (t.render (fun _ => none) .function) (t.mapTexts reread)) :
    Writes .primary ('[' :: render.renderAll (fun _ => none) .function [',', ' '] ts ++ [']'])
      (tuple (ts.map (mapTexts reread))) := by
  cases ts with
  | nil =>
    exact ⟨by decide, fun rest _ =>
      .tuple (spelled_append ['['] (']' :: rest)) .absent (spelled_append [']'] rest)⟩
  | cons u us =>
    have hts := writes_renderAll .type (mapTexts reread) separates_comma trivial
      (List.cons_ne_nil u us) h
    refine ⟨by simp [hts.noTab], fun rest _ => ?_⟩
    have hinner := hts.phrase (']' :: rest) (wordBreak_cons _ rfl)
    simpa using
      Phrase.tuple (spelled_append ['['] _) (.present hinner) (spelled_append [']'] rest)

theorem writes_object {ps : List (Property TypeExpr)}
    (h : ∀ p ∈ ps,
      Writes .type (p.value.render (fun _ => none) .function) (p.value.mapTexts reread))
    (required : Level) :
    Writes .primary ((object ps).render (fun _ => none) required)
      (object (ps.map rereadProperty)) := by
  cases ps with
  | nil =>
    have hrender : (object []).render (fun _ => none) required = ['{', '}'] := rfl
    rw [hrender]
    refine ⟨by simp, fun rest _ => ?_⟩
    have hphrase := Phrase.emptyObject (spelled_append ['{'] ('}' :: rest))
      (spelled_append ['}'] rest)
    simpa using hphrase
  | cons p ps =>
    have hrender : (object (p :: ps)).render (fun _ => none) required =
        ['{', ' '] ++ render.renderProperties (fun _ => none) (p :: ps) ++ [' ', '}'] := rfl
    rw [hrender]
    have hps := writes_renderProperties (List.cons_ne_nil p ps) h
    refine ⟨by simp [hps.noTab], fun rest _ => ?_⟩
    have hinner := (hps.phrase (' ' :: '}' :: rest) (wordBreak_cons _ rfl)).cons_gap
      trivial (show Text.isGap ' ' = true from rfl)
    have hclose := (spelled_append ['}'] rest).cons_gap (show Text.isGap ' ' = true from rfl)
    simpa using Phrase.object (spelled_append ['{'] _) hinner (.inl rfl) hclose

theorem writes_union (hlen : 2 ≤ ts.length)
    (h : ∀ t ∈ ts,
      Writes .intersection (t.render (fun _ => none) .intersection) (t.mapTexts reread)) :
    Writes .union (render.renderAll (fun _ => none) .intersection [' ', '|', ' '] ts)
      (union (ts.map (mapTexts reread))) := by
  have hne : ts ≠ [] := List.ne_nil_of_length_pos (by omega)
  have hts := writes_renderAll .intersection (mapTexts reread) separates_bar trivial hne h
  refine ⟨hts.noTab, fun rest hr => ?_⟩
  rw [← foldMembers_eq union (by simpa using hlen)]
  exact .union (.inl rfl) (hts.phrase rest hr)

theorem writes_intersection (hlen : 2 ≤ ts.length)
    (h : ∀ t ∈ ts, Writes .nullable (t.render (fun _ => none) .nullable) (t.mapTexts reread)) :
    Writes .intersection (render.renderAll (fun _ => none) .nullable [' ', '&', ' '] ts)
      (intersection (ts.map (mapTexts reread))) := by
  have hne : ts ≠ [] := List.ne_nil_of_length_pos (by omega)
  have hts := writes_renderAll .nullable (mapTexts reread) separates_ampersand trivial hne h
  refine ⟨hts.noTab, fun rest hr => ?_⟩
  rw [← foldMembers_eq intersection (by simpa using hlen)]
  exact .intersection (.inl rfl) (hts.phrase rest hr)

theorem writes_nullable (h : Writes .nullable cs t) : Writes .nullable ('?' :: cs) (nullable t) :=
  ⟨by simp [h.noTab], fun rest hr => .nullable (spelled_append ['?'] _) (h.phrase rest hr)⟩

theorem writes_params
    (h : ∀ t ∈ ts, Writes .type (t.render (fun _ => none) .function) (t.mapTexts reread)) :
    Writes (.optional .comma .param) (render.renderAll (fun _ => none) .function [',', ' '] ts)
      (ts.map (mapTexts reread)) := by
  cases ts with
  | nil => exact ⟨List.not_mem_nil, fun _ _ => .absent⟩
  | cons u us =>
    have hparam : ∀ t ∈ u :: us,
        Writes .param (t.render (fun _ => none) .function) (t.mapTexts reread) :=
      fun t ht => (h t ht).imp fun h => .param (.inl rfl) h
    have hts := writes_renderAll .param (mapTexts reread) separates_comma trivial
      (List.cons_ne_nil u us) hparam
    exact hts.imp .present

theorem writes_function
    (hps : ∀ t ∈ ts, Writes .type (t.render (fun _ => none) .function) (t.mapTexts reread))
    (h : Writes .type cs t) :
    Writes .type ('(' :: render.renderAll (fun _ => none) .function [',', ' '] ts ++
      ") => ".toList ++ cs) (function (ts.map (mapTexts reread)) t) := by
  have hparams := writes_params hps
  refine ⟨by simp [hparams.noTab, h.noTab], fun rest hr => ?_⟩
  have hresult : Phrase .type (' ' :: (cs ++ rest)) t rest :=
    (h.phrase rest hr).cons_gap trivial rfl
  have harrow := (spelled_append ['=', '>'] (' ' :: (cs ++ rest))).cons_gap
    (show Text.isGap ' ' = true from rfl)
  have hclose := spelled_append [')'] (' ' :: ['=', '>'] ++ (' ' :: (cs ++ rest)))
  have hinner := hparams.phrase ([')'] ++ (' ' :: ['=', '>'] ++ (' ' :: (cs ++ rest))))
    (wordBreak_cons _ rfl)
  have hphrase := Phrase.function (spelled_append ['('] _) hinner hclose harrow hresult
  exact .ofFunction (by simpa using hphrase)

end Trees

/-- A grammatical tree whose numbers are finite is written, wherever it stands, as the tree with its
texts reread. -/
theorem TypeExpr.Grammatical.writesAt_render {t : TypeExpr} (h : t.Grammatical) (hf : t.IsFinite)
    (required : Level) :
    WritesAt required (t.render (fun _ => none) required) (t.mapTexts reread) := by
  induction h generalizing required with
  | literal hv =>
    refine .ofPrimary (writes_literal hv ?_)
    rintro x rfl
    exact hf x (mem_subtrees_self _)
  | keyword hk => exact writes_of_keyword hk required
  | named hn => exact .ofPrimary (writes_name hn)
  | nullable _ ih =>
    have ht : WritesAt .nullable _ _ :=
      writes_nullable (ih (hf.child (by simp [children])) .nullable)
    exact ht.parenthesize
  | array _ ih => exact .ofPrimary (writes_array (ih (hf.child (by simp [children])) .function))
  | tuple _ ih =>
    rw [mapTexts_tuple]
    exact .ofPrimary (writes_tuple fun t ht => ih t ht (hf.child ht) .function)
  | object _ ih =>
    rw [mapTexts_object]
    refine .ofPrimary (writes_object (fun p hm => ?_) required)
    exact ih p hm (hf.child (List.mem_map.mpr ⟨p, hm, rfl⟩)) .function
  | union hlen _ ih =>
    have hts : WritesAt .union _ _ :=
      writes_union hlen fun t ht => ih t ht (hf.child ht) .intersection
    rw [mapTexts_union]
    exact hts.parenthesize
  | intersection hlen _ ih =>
    have hts : WritesAt .intersection _ _ :=
      writes_intersection hlen fun t ht => ih t ht (hf.child ht) .nullable
    rw [mapTexts_intersection]
    exact hts.parenthesize
  | function _ _ ihps iht =>
    have ht : WritesAt .function _ _ :=
      writes_function (fun p hm => ihps p hm (hf.child (by simp [children, hm])) .function)
        (iht (hf.child (by simp [children])) .function)
    rw [mapTexts_function]
    exact ht.parenthesize

end TypeGuard
