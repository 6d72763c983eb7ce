import Mathlib
import TypeGuard.Proofs.Grammar.Reading

/-! # Where readings stop

A reader leaves an end of its text. Where it fails, it stops behind the gaps at some place of the
text: at a character that is no gap, or at the end. Both are kept by everything readers are built
with, and so they hold of the reading of a whole text.
-/

namespace TypeGuard.Grammar

open Text TypeExpr

variable {α β : Type} {cs rest : List Char}

/-- The outcome of a reading belongs to a text: what is left is an end of the text, and a failure
stands behind the gaps at a place of the text. -/
def StaysIn (cs : List Char) : Except Failure (α × List Char) → Prop
  | .ok (_, rest) => rest <:+ cs
  | .error f => ∃ rest, rest <:+ cs ∧ f.remaining = (skipGaps rest).length

def Reader.Stays (p : Reader α) : Prop :=
  ∀ cs, StaysIn cs (p cs)

def Attempt.Stays (p : Attempt α) : Prop :=
  ∀ ⦃cs a rest⦄, p cs = some (a, rest) → rest <:+ cs

theorem StaysIn.mono {x : Except Failure (α × List Char)} (h : StaysIn rest x)
    (hrest : rest <:+ cs) : StaysIn cs x := by
  cases x with
  | ok r => exact List.IsSuffix.trans h hrest
  | error f =>
    obtain ⟨place, hplace, hf⟩ := h
    exact ⟨place, hplace.trans hrest, hf⟩

theorem StaysIn.bind {x : Except Failure (α × List Char)}
    {f : α × List Char → Except Failure (β × List Char)} (h : StaysIn cs x)
    (hf : ∀ a rest, rest <:+ cs → StaysIn cs (f (a, rest))) : StaysIn cs (x >>= f) := by
  cases x with
  | ok r => exact hf r.1 r.2 h
  | error f => exact h

theorem staysIn_ok {a : α} (h : rest <:+ cs) : StaysIn cs (.ok (a, rest)) :=
  h

theorem Reader.Stays.suffix {p : Reader α} (hp : Reader.Stays p) {a : α}
    (h : p cs = .ok (a, rest)) : rest <:+ cs := by
  have hread := hp cs
  rwa [h] at hread

theorem staysIn_skipGaps (cs : List Char) (e : Expectation) :
    StaysIn (α := α) cs (.error ⟨(skipGaps cs).length, e⟩) :=
  ⟨cs, List.suffix_rfl, rfl⟩

theorem skipGaps_suffix (cs : List Char) : skipGaps cs <:+ cs :=
  List.dropWhile_suffix isGap

theorem suffix_of_skipGaps {c : Char} (h : skipGaps cs = c :: rest) : rest <:+ cs :=
  (List.suffix_cons c rest).trans (h ▸ skipGaps_suffix cs)

theorem Spelled.suffix {w : List Char} (h : Spelled w cs rest) : rest <:+ cs := by
  obtain ⟨gaps, -, rfl⟩ := h
  rw [← List.append_assoc]
  exact List.suffix_append (gaps ++ w) rest

/-! ## Tokens -/

theorem symbol_stays (c : Char) : Attempt.Stays (symbol c) := by
  intro cs u rest h
  rw [symbol] at h
  split at h
  · next d r hs =>
    split_ifs at h
    cases h
    exact suffix_of_skipGaps hs
  · cases h

theorem arrow_stays : Attempt.Stays arrow := fun _ _ _ h =>
  (arrow_eq_some_iff.mp h).suffix

theorem identifier_stays : Attempt.Stays identifier := fun _ _ _ h =>
  (identifier_eq_some_iff.mp h).spelled.suffix

theorem placeholder_stays : Attempt.Stays placeholder := fun _ _ _ h =>
  (placeholder_sound h).2.suffix

theorem arraySuffix_stays : Attempt.Stays arraySuffix := fun _ _ _ h =>
  have ⟨_, _, hspelled⟩ := arraySuffix_eq_some_iff.mp h
  hspelled.suffix

theorem quoted_stays : Attempt.Stays quoted := fun _ _ _ h =>
  have ⟨_, _, _, _, _, hspelled⟩ := quoted_eq_some_iff.mp h
  hspelled.suffix

theorem numeral_stays : Attempt.Stays numeral := by
  intro cs v rest h
  obtain ⟨⟨n, r⟩, hn, hr⟩ := Option.map_eq_some_iff.mp h
  obtain ⟨w, -, hcs⟩ := Numeral.scan_sound hn
  cases hr
  exact hcs ▸ List.suffix_append w rest

theorem propertyKey_stays : Attempt.Stays propertyKey := by
  intro cs key rest h
  rw [propertyKey] at h
  split at h
  · next r hword =>
    cases h
    exact identifier_stays hword
  · exact quoted_stays h

theorem paramName_stays : Attempt.Stays paramName := by
  intro cs u rest h
  rw [paramName] at h
  split at h
  · next name r hword => exact (symbol_stays ':' h).trans (identifier_stays hword)
  · cases h

theorem propertyDelimiter_stays : Attempt.Stays propertyDelimiter := by
  intro cs u rest h
  rw [propertyDelimiter] at h
  split at h
  · next r hcomma =>
    cases h
    exact symbol_stays ',' hcomma
  · exact symbol_stays ';' h

/-! ## Combinators -/

theorem Attempt.Stays.require {p : Attempt α} (h : Attempt.Stays p) (e : Expectation) :
    Reader.Stays (require p e) := by
  intro cs
  unfold Grammar.require
  split
  · next r hr => exact h hr
  · exact staysIn_skipGaps cs e

theorem Attempt.Stays.optional {p : Attempt α} (h : Attempt.Stays p) (cs : List Char) :
    Grammar.optional p cs <:+ cs := by
  unfold Grammar.optional
  split
  · next a rest hr => exact h hr
  · exact List.suffix_rfl

theorem Attempt.Stays.repeatAttempt {p : Attempt α} (h : Attempt.Stays p) (n : ℕ)
    (cs : List Char) : (repeatAttempt p n cs).2 <:+ cs := by
  induction n generalizing cs with
  | zero => exact List.suffix_rfl
  | succ n ih =>
    rw [Grammar.repeatAttempt]
    split
    · exact List.suffix_rfl
    · next a rest hr => exact (ih rest).trans (h hr)

theorem Attempt.Stays.many {p : Attempt α} (h : Attempt.Stays p) (cs : List Char) :
    (many p cs).2 <:+ cs :=
  h.repeatAttempt cs.length cs

theorem Reader.Stays.after {delimiter : Attempt Unit} {p : Reader α} (hp : Reader.Stays p)
    (hd : Attempt.Stays delimiter) : Attempt.Stays (after delimiter p) := by
  intro cs a rest h
  obtain ⟨u, r, hr, hread⟩ := after_eq_some_iff.mp h
  exact (hp.suffix hread).trans (hd hr)

theorem Reader.Stays.moreElements {delimiter : Attempt Unit} {p : Reader α} (hp : Reader.Stays p)
    (hd : Attempt.Stays delimiter) (cs : List Char) : (moreElements delimiter p cs).2 <:+ cs :=
  (hp.after hd).many cs

theorem Reader.Stays.elements {delimiter : Attempt Unit} {p : Reader α} (hp : Reader.Stays p)
    (hd : Attempt.Stays delimiter) (cs : List Char) : (elements delimiter p cs).2 <:+ cs := by
  unfold Grammar.elements
  split
  · exact List.suffix_rfl
  · next a rest hr => exact (hp.moreElements hd rest).trans (hp.suffix hr)

/-! ## Rules -/

section Rules

variable {type : Reader TypeExpr} (ht : Reader.Stays type)

include ht

theorem property_stays : Reader.Stays (property type) := by
  intro cs
  apply (propertyKey_stays.require .type cs).bind
  intro key rest hkey
  have hmark := ((symbol_stays '?').optional rest).trans hkey
  apply (((symbol_stays ':').require .type _).mono hmark).bind
  intro u rest hcolon
  apply ((ht rest).mono hcolon).bind
  intro value rest hvalue
  exact staysIn_ok hvalue

theorem arrayArgument_stays : Reader.Stays (arrayArgument type) := by
  intro cs
  apply ((symbol_stays '<').require .type cs).bind
  intro u rest hopen
  apply ((ht rest).mono hopen).bind
  intro element rest helement
  apply (((symbol_stays '>').require .type rest).mono helement).bind
  intro u rest hclose
  exact staysIn_ok hclose

theorem wordType_stays (word : String) (rest : List Char) :
    (wordType type word rest).2 <:+ rest := by
  unfold wordType
  split_ifs
  · exact List.suffix_rfl
  · split
    · next r hr => exact (arrayArgument_stays ht).suffix hr
    · exact List.suffix_rfl
  · exact List.suffix_rfl

theorem tupleBody_stays : Reader.Stays (tupleBody type) := by
  intro cs
  have helements := ht.elements (symbol_stays ',') cs
  apply (((symbol_stays ']').require .closeBracket _).mono helements).bind
  intro u rest hclose
  exact staysIn_ok hclose

theorem objectBody_stays : Reader.Stays (objectBody type) := by
  intro cs
  have helements := (property_stays ht).elements propertyDelimiter_stays cs
  have hlast : (if (elements propertyDelimiter (property type) cs).1.isEmpty then
      (elements propertyDelimiter (property type) cs).2
      else Grammar.optional propertyDelimiter
        (elements propertyDelimiter (property type) cs).2) <:+ cs := by
    split_ifs
    · exact helements
    · exact (propertyDelimiter_stays.optional _).trans helements
  apply (((symbol_stays '}').require .closeBrace _).mono hlast).bind
  intro u rest hclose
  exact staysIn_ok hclose

omit ht in
theorem closeGroup_stays {inner : Except Failure (TypeExpr × List Char)} (h : StaysIn cs inner) :
    StaysIn cs (closeGroup inner) := by
  apply h.bind
  intro t rest hrest
  apply (((symbol_stays ')').require .closeParen rest).mono hrest).bind
  intro u rest hclose
  exact staysIn_ok hclose

theorem primary_stays : Reader.Stays (primary type) := by
  intro cs
  have hstart := skipGaps_suffix cs
  simp only [primary]
  split
  · next hs => exact ⟨cs, List.suffix_rfl, by rw [hs]; rfl⟩
  · next c rest hs =>
    have hrest := suffix_of_skipGaps hs
    split_ifs
    · exact (tupleBody_stays ht rest).mono hrest
    · exact (objectBody_stays ht rest).mono hrest
    · exact closeGroup_stays ((ht rest).mono hrest)
    · exact staysIn_ok ((wordType_stays ht _ _).trans
        ((List.dropWhile_suffix isWordPart).trans hrest))
    · split
      · next v r hv => exact (numeral_stays hv).trans hstart
      · split
        · next s r hq => exact (quoted_stays hq).trans hstart
        · split
          · next name r hp => exact (placeholder_stays hp).trans hstart
          · exact staysIn_skipGaps cs .type

omit ht in
theorem suffixes_stays (t : TypeExpr) (cs : List Char) : (suffixes t cs).2 <:+ cs :=
  arraySuffix_stays.many cs

theorem postfixType_stays : Reader.Stays (postfixType type) := by
  intro cs
  apply (primary_stays ht cs).bind
  intro t rest hrest
  exact staysIn_ok ((suffixes_stays t rest).trans hrest)

theorem prefixType_stays : Reader.Stays (prefixType type) := by
  intro cs
  have hmarks := (symbol_stays '?').many cs
  apply ((postfixType_stays ht _).mono hmarks).bind
  intro t rest hrest
  exact staysIn_ok hrest

theorem intersectionRest_stays (t : TypeExpr) (cs : List Char) :
    (intersectionRest type t cs).2 <:+ cs :=
  (prefixType_stays ht).moreElements (symbol_stays '&') cs

theorem intersectionType_stays : Reader.Stays (intersectionType type) := by
  intro cs
  apply ((prefixType_stays ht _).mono ((symbol_stays '&').optional cs)).bind
  intro t rest hrest
  exact staysIn_ok ((intersectionRest_stays ht t rest).trans hrest)

theorem unionRest_stays (t : TypeExpr) (cs : List Char) : (unionRest type t cs).2 <:+ cs :=
  (intersectionType_stays ht).moreElements (symbol_stays '|') cs

theorem unionType_stays : Reader.Stays (unionType type) := by
  intro cs
  apply ((intersectionType_stays ht _).mono ((symbol_stays '|').optional cs)).bind
  intro t rest hrest
  exact staysIn_ok ((unionRest_stays ht t rest).trans hrest)

theorem param_stays : Reader.Stays (param type) := fun cs =>
  (ht _).mono (paramName_stays.optional cs)

theorem functionBody_stays (cs : List Char) : StaysIn cs (functionBody type (type cs) cs) := by
  have hparams : (params type (type cs) cs).2 <:+ cs := by
    rw [params_eq]
    exact (param_stays ht).elements (symbol_stays ',') cs
  apply (((symbol_stays ')').require .closeParen _).mono hparams).bind
  intro u rest hclose
  apply ((arrow_stays.require .arrow rest).mono hclose).bind
  intro u rest harrow
  apply ((ht rest).mono harrow).bind
  intro result rest hresult
  exact staysIn_ok hresult

/-- Of two failures in one text the one that explains both stands in the text as well. -/
theorem parenthesizedType_stays : Reader.Stays (parenthesizedType type) := by
  intro cs
  have hfunction := functionBody_stays ht cs
  have hgroup := closeGroup_stays (ht cs)
  simp only [parenthesizedType]
  split
  · next r hr =>
    rw [hr] at hfunction
    exact hfunction
  · next f hf =>
    rw [hf] at hfunction
    split
    · next g hg =>
      rw [hg] at hgroup
      unfold Failure.furthest
      split_ifs
      · exact hgroup
      · exact hfunction
    · next t rest hr =>
      rw [hr] at hgroup
      have hsuffixes := (suffixes_stays t rest).trans hgroup
      generalize suffixes t rest = r at hsuffixes ⊢
      have hintersection := (intersectionRest_stays ht r.1 r.2).trans hsuffixes
      generalize intersectionRest type r.1 r.2 = r at hintersection ⊢
      exact staysIn_ok ((unionRest_stays ht r.1 r.2).trans hintersection)

theorem typeLevel_stays : Reader.Stays (typeLevel type) := by
  intro cs
  unfold typeLevel
  split
  · next u rest hr => exact (parenthesizedType_stays ht rest).mono (symbol_stays '(' hr)
  · exact unionType_stays ht cs

end Rules

theorem parseUpTo_stays (depth : ℕ) : Reader.Stays (parseUpTo depth) := by
  induction depth with
  | zero => exact fun cs => staysIn_skipGaps cs .type
  | succ depth ih => exact typeLevel_stays ih

/-- A text that is no type is given up behind the gaps at some place of the text. -/
theorem parseText_stops {f : Failure} (h : parseText cs = .error f) :
    ∃ rest, rest <:+ cs ∧ f.remaining = (skipGaps rest).length := by
  have hread : StaysIn cs (parseType cs) := parseUpTo_stays (cs.length + 1) cs
  unfold parseText at h
  cases hparse : parseType cs with
  | error g =>
    rw [hparse] at h hread
    cases h
    exact hread
  | ok r =>
    obtain ⟨t, rest⟩ := r
    rw [hparse] at h hread
    cases hrest : skipGaps rest with
    | nil =>
      simp [bind, Except.bind, hrest, pure, Except.pure] at h
    | cons c r =>
      simp only [bind, Except.bind, hrest] at h
      cases h
      exact ⟨rest, hread, by rw [hrest]⟩

end TypeGuard.Grammar
