import TypeGuard.Proofs.Template.Resolution

/-! # Reserved names

The names kept for placeholders occur in a resolved template only where a placeholder was written. A
template in whose own texts they occur is refused, wherever the texts are divided into parts.
-/

namespace TypeGuard

namespace Text

/-- Where a text that is not empty occurs in another, in order. -/
def occurrences (part cs : List Char) : List ℕ :=
  (List.range cs.length).filter fun i => part.isPrefixOf (cs.drop i)

variable {c : Char} {part cs : List Char}

theorem occurrences_cons (part : List Char) (c : Char) (cs : List Char) :
    occurrences part (c :: cs) =
      (if part <+: c :: cs then [0] else []) ++ (occurrences part cs).map (· + 1) := by
  rw [occurrences, List.length_cons, List.range_succ_eq_map, List.filter_cons, List.filter_map]
  simp only [List.isPrefixOf_iff_prefix, List.drop_zero]
  split_ifs <;> rfl

theorem occurrences_cons_of_pos (h : part <+: c :: cs) :
    occurrences part (c :: cs) = 0 :: (occurrences part cs).map (· + 1) := by
  rw [occurrences_cons, if_pos h, List.singleton_append]

theorem occurrences_cons_of_neg (h : ¬ part <+: c :: cs) :
    occurrences part (c :: cs) = (occurrences part cs).map (· + 1) := by
  rw [occurrences_cons, if_neg h, List.nil_append]

theorem occurrences_append {w : List Char} (hw : c ∉ w) (rest : List Char) :
    occurrences (c :: part) (w ++ rest) =
      (occurrences (c :: part) rest).map (· + w.length) := by
  induction w with
  | nil => simp
  | cons d w ih =>
    obtain ⟨hd, hw⟩ := not_or.mp (mt List.mem_cons.mpr hw)
    have hne : ¬ c :: part <+: d :: (w ++ rest) := fun h => hd (List.cons_prefix_cons.mp h).1
    rw [List.cons_append, occurrences_cons_of_neg hne, ih hw, List.map_map]
    rfl

theorem prefix_append_cons_iff {a b : List Char} (hc : c ∉ part) :
    part <+: a ++ c :: b ↔ part <+: a := by
  induction a generalizing part with
  | nil =>
    cases part with
    | nil => simp
    | cons d part =>
      rw [List.nil_append, List.cons_prefix_cons, List.prefix_nil]
      exact iff_of_false (fun h => hc (h.1 ▸ List.mem_cons_self)) (List.cons_ne_nil _ _)
  | cons d a ih =>
    cases part with
    | nil => simp
    | cons e part =>
      rw [List.cons_append, List.cons_prefix_cons, List.cons_prefix_cons,
        ih (List.not_mem_of_not_mem_cons hc)]

/-- A text does not reach across a character that it lacks. -/
theorem infix_append_cons_iff {a b : List Char} (hc : c ∉ part) :
    part <:+: a ++ c :: b ↔ part <:+: a ∨ part <:+: b := by
  induction a with
  | nil =>
    rw [List.nil_append, List.infix_cons_iff, ← List.nil_append (c :: b),
      prefix_append_cons_iff hc, List.prefix_nil, List.infix_nil]
  | cons d a ih =>
    rw [List.cons_append, List.infix_cons_iff, List.infix_cons_iff, ih, ← List.cons_append,
      prefix_append_cons_iff hc, or_assoc]

end Text

open Text Grammar

/-- The texts of the longest runs of parts that are texts; the first goes on after `run`. -/
def literalRuns (run : List Char) : List Value → List (List Char)
  | [] => [run]
  | part :: parts =>
    match part.text? with
    | some s => literalRuns (run ++ s.toList) parts
    | none => run :: literalRuns [] parts

/-- What lacks a space is in the text as written if it is in one of the runs. -/
theorem infix_shown_iff {word : List Char} (hspace : ' ' ∉ word) (run : List Char)
    (parts : List Value) :
    word <:+: run ++ (Piece.ofParts parts).map Piece.shown ↔
      ∃ r ∈ literalRuns run parts, word <:+: r := by
  induction parts generalizing run with
  | nil => simp [Piece.ofParts, literalRuns]
  | cons part parts ih =>
    rw [literalRuns]
    cases hpart : part.text? with
    | some s =>
      have hshown : (s.toList.map Piece.char).map Piece.shown = s.toList := by
        simp [Function.comp_def, Piece.shown]
      rw [Piece.ofParts_text hpart, List.map_append, hshown, ← List.append_assoc, ih]
    | none =>
      rw [Piece.ofParts_embed hpart, List.map_cons, Piece.shown, infix_append_cons_iff hspace,
        List.exists_mem_cons_iff, ← ih, List.nil_append]

namespace Piece

def starts (index : ℕ) : List Piece → List ℕ
  | [] => []
  | char _ :: ps => (starts index ps).map (· + 1)
  | embed _ :: ps => 0 :: (starts (index + 1) ps).map (· + (placeholderName index).toList.length)

variable {index : ℕ} {ps : List Piece}

theorem prefix_shown {w : List Char} (hw : ∀ c ∈ w, isWordPart c = true)
    (h : w <+: spliced index ps) : w <+: ps.map shown := by
  obtain ⟨rest, hrest⟩ := h
  have hrun := List.prefix_append w (rest.takeWhile isWordPart)
  rw [← List.takeWhile_append_of_pos hw, hrest, takeWhile_spliced] at hrun
  exact hrun.trans (List.takeWhile_prefix _)

/-- If the prefix of placeholders is not in the text as written, it begins each placeholder and
nothing else. -/
theorem occurrences_spliced (h : ¬ placeholderPrefix.toList <:+: ps.map shown) :
    occurrences placeholderPrefix.toList (spliced index ps) = starts index ps := by
  have hreserved : placeholderPrefix.toList = '$' :: ['R', 'e', 'f'] := rfl
  induction ps generalizing index with
  | nil => rfl
  | cons p ps ih =>
    have hps : ¬ placeholderPrefix.toList <:+: ps.map shown :=
      fun hin => h (hin.trans (List.suffix_cons _ _).isInfix)
    cases p with
    | char c =>
      have hne : ¬ placeholderPrefix.toList <+: c :: spliced index ps := by
        intro hp
        rw [hreserved, List.cons_prefix_cons] at hp
        obtain ⟨rfl, hp⟩ := hp
        have hword : ∀ c ∈ ['R', 'e', 'f'], isWordPart c = true := List.all_eq_true.mp rfl
        exact h (List.cons_prefix_cons.mpr ⟨rfl, prefix_shown hword hp⟩).isInfix
      rw [spliced, occurrences_cons_of_neg hne, ih hps, starts]
    | embed v =>
      have hdollar : '$' ∉ 'R' :: 'e' :: 'f' :: digitChars index := fun hin =>
        absurd (isWordPart_placeholder index _ hin) (by decide)
      have hpos : placeholderPrefix.toList <+:
          '$' :: (('R' :: 'e' :: 'f' :: digitChars index) ++ spliced (index + 1) ps) :=
        ⟨digitChars index ++ spliced (index + 1) ps, rfl⟩
      rw [spliced, starts, placeholderName_toList, List.cons_append,
        occurrences_cons_of_pos hpos, hreserved, occurrences_append hdollar, ← hreserved, ih hps,
        List.map_map]
      rfl

theorem length_starts (index : ℕ) (ps : List Piece) :
    (starts index ps).length = (ps.filterMap value?).length := by
  induction ps generalizing index with
  | nil => rfl
  | cons p ps ih =>
    cases p with
    | char c => rw [starts, List.length_map, ih]; rfl
    | embed v => rw [starts, List.length_cons, List.length_map, ih]; rfl

theorem spliced_append (index : ℕ) (ps qs : List Piece) :
    spliced index (ps ++ qs) =
      spliced index ps ++ spliced (index + (ps.filterMap value?).length) qs := by
  induction ps generalizing index with
  | nil => rfl
  | cons p ps ih =>
    cases p with
    | char c => rw [List.cons_append, spliced, spliced, ih]; rfl
    | embed v =>
      rw [List.cons_append, spliced, spliced, ih, List.append_assoc, List.filterMap_cons, value?,
        List.length_cons, Nat.add_right_comm, Nat.add_assoc]

/-- The placeholder of a number begins where the text before its embedded value ends. -/
theorem exists_of_starts {i k : ℕ} (h : (starts index ps)[i]? = some k) :
    ∃ before v after, ps = before ++ embed v :: after ∧ (before.filterMap value?).length = i ∧
      (spliced index before).length = k := by
  induction ps generalizing index i k with
  | nil => simp [starts] at h
  | cons p ps ih =>
    cases p with
    | char c =>
      rw [starts, List.getElem?_map, Option.map_eq_some_iff] at h
      obtain ⟨j, hj, rfl⟩ := h
      obtain ⟨before, v, after, rfl, hi, rfl⟩ := ih hj
      exact ⟨char c :: before, v, after, rfl, hi, rfl⟩
    | embed u =>
      cases i with
      | zero =>
        obtain rfl : 0 = k := by simpa [starts] using h
        exact ⟨[], u, ps, rfl, rfl, rfl⟩
      | succ i =>
        rw [starts, List.getElem?_cons_succ, List.getElem?_map, Option.map_eq_some_iff] at h
        obtain ⟨j, hj, rfl⟩ := h
        obtain ⟨before, v, after, rfl, rfl, rfl⟩ := ih hj
        refine ⟨embed u :: before, v, after, rfl, rfl, ?_⟩
        rw [spliced, List.length_append, Nat.add_comm]

/-! ## Names of the environment -/

theorem map_fst_bindings (index : ℕ) (vs : List Value) :
    (bindings index vs).map Prod.fst = (List.range' index vs.length).map placeholderName := by
  induction vs generalizing index with
  | nil => rfl
  | cons v vs ih =>
    rw [bindings, List.map_cons, ih, List.length_cons, List.range'_succ, List.map_cons]

theorem ne_placeholderName_of_isIdentifier {name : String} (h : isIdentifier name.toList = true)
    (index : ℕ) : name ≠ placeholderName index := by
  rintro rfl
  rw [placeholderName_toList] at h
  exact absurd h Bool.false_ne_true

end Piece

open Piece

theorem nodup_environment {refs : List (Value × Value)} (h : NamesReferences refs)
    (hnames : ((World.textReferences refs).map Prod.fst).Nodup) (vs : List Value) :
    ((World.textReferences refs ++ bindings 0 vs).map Prod.fst).Nodup := by
  rw [List.map_append, map_fst_bindings]
  refine hnames.append (List.Nodup.map placeholderName_injective List.nodup_range') ?_
  intro name hname hplaceholder
  obtain ⟨p, hp, rfl⟩ := List.mem_map.mp hname
  obtain ⟨index, -, hindex⟩ := List.mem_map.mp hplaceholder
  exact ne_placeholderName_of_isIdentifier (h.isIdentifier p hp) index hindex.symm

/-- A template is resolved exactly if its references can be named and called and no run of its texts
holds the prefix of placeholders. The prefix then begins the placeholders in the text and nothing
else, and the environment binds the named references and after them the placeholders in order. -/
theorem resolveTemplate_reserves (display : Value → String) (parts : List Value)
    (refs : List (Value × Value)) :
    ((∃ r, resolveTemplate display parts refs = .ok r) ↔
      NamesReferences refs ∧ EmbedsCallables parts ∧
        ∀ run ∈ literalRuns [] parts, ¬ placeholderPrefix.toList <:+: run) ∧
    ∀ r, resolveTemplate display parts refs = .ok r →
      let ps := ofParts parts
      let vs := ps.filterMap value?
      let offsets := occurrences placeholderPrefix.toList r.text
      offsets.length = vs.length ∧
      (∀ i k, offsets[i]? = some k → ∃ before v after, ps = before ++ embed v :: after ∧
        (before.filterMap value?).length = i ∧ (spliced 0 before).length = k ∧
        r.text = spliced 0 before ++ ((placeholderName i).toList ++ spliced (i + 1) after)) ∧
      r.environment = World.textReferences refs ++ bindings 0 vs ∧
      (((World.textReferences refs).map Prod.fst).Nodup → (r.environment.map Prod.fst).Nodup) := by
  have hruns : placeholderPrefix.toList <:+: (ofParts parts).map shown ↔
      ∃ run ∈ literalRuns [] parts, placeholderPrefix.toList <:+: run := by
    rw [← infix_shown_iff (by decide), List.nil_append]
  constructor
  · simp only [resolveTemplate_eq_ok_iff, hruns, exists_and_left, exists_eq', and_true, not_exists,
      not_and]
  · intro r hr ps vs offsets
    obtain ⟨hrefs, -, hreserved, rfl⟩ := resolveTemplate_eq_ok_iff.mp hr
    have hoffsets : offsets = starts 0 ps := occurrences_spliced hreserved
    refine ⟨?_, ?_, rfl, fun hnames => nodup_environment hrefs hnames vs⟩
    · rw [hoffsets, length_starts]
    · intro i k hk
      rw [hoffsets] at hk
      obtain ⟨before, v, after, hps, rfl, rfl⟩ := exists_of_starts hk
      refine ⟨before, v, after, hps, rfl, rfl, ?_⟩
      change spliced 0 ps = _
      rw [hps, spliced_append, Nat.zero_add, spliced]

/-- A dollar sign before an embedded value and the rest of the prefix after it: the prefix is
written twice, and not where the template spells it. -/
theorem resolveTemplate_reserves_of_split_prefix :
    let parts : List Value := [.str "$", .type (.ofBuiltin .dict) [], .str "", .str "Ref",
      .type (.ofBuiltin .int) []]
    let refs : List (Value × Value) := [(.str "T", .type (.ofBuiltin .str) [])]
    let r : Resolved := ⟨"$$Ref0Ref$Ref1".toList, [("T", .type (.ofBuiltin .str) []),
      ("$Ref0", .type (.ofBuiltin .dict) []), ("$Ref1", .type (.ofBuiltin .int) [])]⟩
    resolveTemplate World.empty.display parts refs = .ok r ∧
      (occurrences placeholderPrefix.toList r.text).length = 2 ∧
      (r.environment.map Prod.fst).Nodup := by
  intro parts refs r
  have hr : resolveTemplate World.empty.display parts refs = .ok r := rfl
  obtain ⟨hlength, -, -, hnodup⟩ := (resolveTemplate_reserves _ parts refs).2 r hr
  exact ⟨hr, hlength, hnodup (List.nodup_singleton _)⟩

example : resolveTemplate World.empty.display [.str "$R", .str "", .str "ef0"] [] =
    .error .reservedPrefix := rfl

end TypeGuard
