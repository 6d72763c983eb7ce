import TypeGuard.Template
import TypeGuard.Proofs.Except
import TypeGuard.Proofs.Grammar.Lexeme
import TypeGuard.Proofs.Number.Writing

/-! # Resolved templates

A template is a sequence of characters and of embedded values. Resolving it writes a placeholder for
each of these, and fails only for a reference that cannot be named or called, or for a text that
uses the names kept for placeholders.
-/

namespace TypeGuard

open Text Grammar

/-- A character of a template as written, or a value embedded in it. -/
inductive Piece where
  | char (c : Char)
  | embed (v : Value)

namespace Piece

def value? : Piece → Option Value
  | char _ => none
  | embed v => some v

/-- The character as written, and a space for an embedded value. -/
def shown : Piece → Char
  | char c => c
  | embed _ => ' '

def ofParts : List Value → List Piece
  | [] => []
  | part :: parts =>
    match part.text? with
    | some s => s.toList.map char ++ ofParts parts
    | none => embed part :: ofParts parts

/-- The text with a placeholder for each embedded value, numbered from a start. -/
def spliced (index : ℕ) : List Piece → List Char
  | [] => []
  | char c :: ps => c :: spliced index ps
  | embed _ :: ps => (placeholderName index).toList ++ spliced (index + 1) ps

def bindings (index : ℕ) : List Value → List (String × Value)
  | [] => []
  | v :: vs => (placeholderName index, v) :: bindings (index + 1) vs

theorem ofParts_text {part : Value} {s : String} (h : part.text? = some s) (parts : List Value) :
    ofParts (part :: parts) = s.toList.map char ++ ofParts parts := by
  rw [ofParts, h]

theorem ofParts_embed {part : Value} (h : part.text? = none) (parts : List Value) :
    ofParts (part :: parts) = embed part :: ofParts parts := by
  rw [ofParts, h]

theorem spliced_chars (index : ℕ) (cs : List Char) (ps : List Piece) :
    spliced index (cs.map char ++ ps) = cs ++ spliced index ps := by
  induction cs with
  | nil => rfl
  | cons c cs ih => rw [List.map_cons, List.cons_append, spliced, ih, List.cons_append]

/-! ## Placeholders -/

theorem placeholderName_toList (index : ℕ) :
    (placeholderName index).toList = '$' :: ('R' :: 'e' :: 'f' :: digitChars index) := by
  simp [placeholderName, placeholderPrefix]

theorem isWordPart_placeholder (index : ℕ) :
    ∀ c ∈ 'R' :: 'e' :: 'f' :: digitChars index, isWordPart c = true := by
  have hdigits := fun c hc => isWordPart_of_isDigit (isDigit_digitChars index c hc)
  simp only [List.forall_mem_cons]
  exact ⟨rfl, rfl, rfl, hdigits⟩

theorem placeholderName_injective : Function.Injective placeholderName := by
  intro i j h
  have hlist := congrArg String.toList h
  rw [placeholderName_toList, placeholderName_toList] at hlist
  have hdigits : digitChars i = digitChars j := by simpa using hlist
  rw [← natOfDigits_digitChars i, hdigits, natOfDigits_digitChars]

/-- Up to the next embedded value, words in the spliced text are words as written. -/
theorem takeWhile_spliced (index : ℕ) (ps : List Piece) :
    (spliced index ps).takeWhile isWordPart = (ps.map shown).takeWhile isWordPart := by
  induction ps with
  | nil => rfl
  | cons p ps ih =>
    cases p with
    | char c =>
      rw [spliced, List.map_cons, shown, List.takeWhile_cons, List.takeWhile_cons, ih]
    | embed v =>
      rw [spliced, placeholderName_toList, List.cons_append, List.map_cons, shown,
        List.takeWhile_cons_of_neg (by decide), List.takeWhile_cons_of_neg (by decide)]

end Piece

/-! ## What resolving answers -/

def NamesReferences (refs : List (Value × Value)) : Prop :=
  ∀ p ∈ refs, ∃ name, p.1.text? = some name ∧ isIdentifier name.toList = true ∧
    p.2.isCallable = true

def EmbedsCallables (parts : List Value) : Prop :=
  ∀ part ∈ parts, part.text? = none → part.isCallable = true

theorem checkEmbedding_eq_ok_iff {label : String} {v : Value} {u : Unit} :
    checkEmbedding label v = .ok u ↔ v.isCallable = true := by
  unfold checkEmbedding
  cases v.isCallable <;> simp

theorem splice_eq_ok_iff {parts : List Value} {index : ℕ}
    {r : List Char × List Char × List (String × Value)} :
    splice index parts = .ok r ↔ EmbedsCallables parts ∧
      (Piece.spliced index (Piece.ofParts parts), (Piece.ofParts parts).map Piece.shown,
        Piece.bindings index ((Piece.ofParts parts).filterMap Piece.value?)) = r := by
  rw [EmbedsCallables]
  induction parts generalizing index r with
  | nil =>
    rw [splice, Except.ok.injEq]
    exact (and_iff_right fun _ h => absurd h List.not_mem_nil).symm
  | cons part parts ih =>
    rw [splice, List.forall_mem_cons]
    cases hpart : part.text? with
    | some s =>
      rw [Piece.ofParts_text hpart, Piece.spliced_chars, List.map_append, List.filterMap_append]
      simp only [bind_eq_ok_iff, pure_eq_ok_iff, ih]
      constructor
      · rintro ⟨_, ⟨hparts, rfl⟩, rfl⟩
        exact ⟨⟨nofun, hparts⟩, by simp [Function.comp_def, Piece.shown, Piece.value?]⟩
      · rintro ⟨⟨-, hparts⟩, rfl⟩
        exact ⟨_, ⟨hparts, rfl⟩, by simp [Function.comp_def, Piece.shown, Piece.value?]⟩
    | none =>
      rw [Piece.ofParts_embed hpart]
      simp only [bind_eq_ok_iff, pure_eq_ok_iff, ih, checkEmbedding_eq_ok_iff]
      constructor
      · rintro ⟨-, hcallable, _, ⟨hparts, rfl⟩, rfl⟩
        exact ⟨⟨fun _ => hcallable, hparts⟩, rfl⟩
      · rintro ⟨⟨hcallable, hparts⟩, rfl⟩
        exact ⟨(), hcallable trivial, _, ⟨hparts, rfl⟩, rfl⟩

theorem namedReferences_eq_ok_iff {display : Value → String} {refs : List (Value × Value)}
    {named : List (String × Value)} :
    namedReferences display refs = .ok named ↔
      NamesReferences refs ∧ World.textReferences refs = named := by
  rw [NamesReferences]
  induction refs generalizing named with
  | nil =>
    rw [namedReferences, Except.ok.injEq]
    exact (and_iff_right fun _ h => absurd h List.not_mem_nil).symm
  | cons ref refs ih =>
    obtain ⟨key, v⟩ := ref
    rw [namedReferences, List.forall_mem_cons]
    cases hkey : key.text? with
    | none => simp
    | some name =>
      have hrefs : World.textReferences ((key, v) :: refs) =
          (name, v) :: World.textReferences refs := by
        simp [World.textReferences, hkey]
      rw [hrefs]
      by_cases hname : isIdentifier name.toList = true
      · simp only [if_pos hname, bind_eq_ok_iff, pure_eq_ok_iff, ih, checkEmbedding_eq_ok_iff]
        constructor
        · rintro ⟨-, hcallable, _, ⟨hrefs, rfl⟩, rfl⟩
          exact ⟨⟨⟨name, rfl, hname, hcallable⟩, hrefs⟩, rfl⟩
        · rintro ⟨⟨⟨_, -, -, hcallable⟩, hrefs⟩, rfl⟩
          exact ⟨(), hcallable, _, ⟨hrefs, rfl⟩, rfl⟩
      · simp [hname]

theorem NamesReferences.isIdentifier {refs : List (Value × Value)} (h : NamesReferences refs) :
    ∀ p ∈ World.textReferences refs, isIdentifier p.1.toList = true := by
  intro p hp
  obtain ⟨⟨key, v⟩, href, hname⟩ := List.mem_filterMap.mp hp
  obtain ⟨name, hkey, rfl⟩ := Option.map_eq_some_iff.mp hname
  obtain ⟨name', hkey', hident, -⟩ := h _ href
  rwa [Option.some.inj (hkey.symm.trans hkey')]

theorem resolveTemplate_eq_ok_iff {display : Value → String} {parts : List Value}
    {refs : List (Value × Value)} {r : Resolved} :
    resolveTemplate display parts refs = .ok r ↔
      NamesReferences refs ∧ EmbedsCallables parts ∧
        ¬ placeholderPrefix.toList <:+: (Piece.ofParts parts).map Piece.shown ∧
        ⟨Piece.spliced 0 (Piece.ofParts parts), World.textReferences refs ++
          Piece.bindings 0 ((Piece.ofParts parts).filterMap Piece.value?)⟩ = r := by
  rw [resolveTemplate, ← Text.occursIn_iff]
  simp only [bind_eq_ok_iff, namedReferences_eq_ok_iff, splice_eq_ok_iff]
  constructor
  · rintro ⟨_, ⟨hrefs, rfl⟩, _, ⟨hparts, rfl⟩, h⟩
    simp only at h
    split_ifs at h with hreserved
    exact ⟨hrefs, hparts, hreserved, pure_eq_ok_iff.mp h⟩
  · rintro ⟨hrefs, hparts, hreserved, rfl⟩
    exact ⟨_, ⟨hrefs, rfl⟩, _, ⟨hparts, rfl⟩, if_neg hreserved⟩

end TypeGuard
