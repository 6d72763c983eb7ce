import TypeGuard.Proofs.Grammar.Placeholder
import TypeGuard.Proofs.Template.Resolution

/-! # Embedded values in the tree

What becomes of the values embedded in a template when its text is parsed. A placeholder is spliced
in whatever stands around it: between quotes it is lost, and word characters after it are taken for
a part of it.
-/

namespace TypeGuard

open Text Grammar TypeExpr

namespace Piece

/-- What stands for the embedded values outside quotes: the placeholder of each, and the word
characters after it. -/
def standing : Quoting → ℕ → List Piece → List String
  | _, _, [] => []
  | q, index, char c :: ps => standing (q.next c) index ps
  | q, index, embed _ :: ps =>
    let name := placeholderName index
    let after := standing (q.after name.toList) (index + 1) ps
    if q = .outside then
      (name ++ String.ofList ((ps.map shown).takeWhile isWordPart)) :: after
    else after

/-- Every embedded value stands outside quotes, with no word character after it. -/
def Apart : Quoting → List Piece → Prop
  | _, [] => True
  | q, char c :: ps => Apart (q.next c) ps
  | q, embed _ :: ps => q = .outside ∧ WordBreak (ps.map shown) ∧ Apart .outside ps

/-! ## What is mentioned in the spliced text -/

theorem mentions_outside_placeholder (index : ℕ) (rest : List Char) :
    mentions .outside ((placeholderName index).toList ++ rest) =
      (placeholderName index ++ String.ofList (rest.takeWhile isWordPart)) ::
        mentions (Quoting.outside.after (placeholderName index).toList) rest := by
  have hword := isWordPart_placeholder index
  have hdollar : '$' ∉ 'R' :: 'e' :: 'f' :: digitChars index := fun h =>
    absurd (hword _ h) (by decide)
  have hname : String.ofList ('$' :: ('R' :: 'e' :: 'f' :: digitChars index)) =
      placeholderName index := by
    rw [← placeholderName_toList, String.ofList_toList]
  rw [placeholderName_toList, List.cons_append, mentions, List.takeWhile_append_of_pos hword,
    mentions_append hdollar, ← List.cons_append, String.ofList_append, hname]
  rfl

theorem mentions_quoted_placeholder {q : Quoting} (hq : q ≠ .outside) (index : ℕ)
    (rest : List Char) :
    mentions q ((placeholderName index).toList ++ rest) =
      mentions (q.after (placeholderName index).toList) rest := by
  have hdollar : '$' ∉ 'R' :: 'e' :: 'f' :: digitChars index := fun h =>
    absurd (isWordPart_placeholder index _ h) (by decide)
  rw [placeholderName_toList, List.cons_append, mentions_of_escapes fun h => hq h.1,
    mentions_append hdollar]
  rfl

/-- The mentions in a spliced text, if they all begin like a placeholder and the text as written
holds no such beginning. -/
theorem mentions_spliced {q : Quoting} {index : ℕ} {ps : List Piece}
    (hwritten : ¬ placeholderPrefix.toList <:+: ps.map shown)
    (hall : ∀ m ∈ mentions q (spliced index ps), placeholderPrefix.toList <+: m.toList) :
    mentions q (spliced index ps) = standing q index ps := by
  induction ps generalizing q index with
  | nil => cases q <;> rfl
  | cons p ps ih =>
    have hps : ¬ placeholderPrefix.toList <:+: ps.map shown :=
      fun h => hwritten (h.trans (List.suffix_cons _ _).isInfix)
    cases p with
    | char c =>
      rw [spliced, standing]
      rw [spliced] at hall
      by_cases hq : q = .outside ∧ c = '$'
      · -- a dollar sign of the text as written would begin a mention that is written there
        obtain ⟨rfl, rfl⟩ := hq
        rw [mentions, takeWhile_spliced] at hall
        have hm := hall _ List.mem_cons_self
        rw [String.toList_ofList] at hm
        refine absurd (hm.trans ?_).isInfix hwritten
        exact List.cons_prefix_cons.mpr ⟨rfl, List.takeWhile_prefix _⟩
      · rw [mentions_of_escapes hq] at hall ⊢
        exact ih hps hall
    | embed v =>
      rw [spliced, standing]
      rw [spliced] at hall
      by_cases hq : q = .outside
      · subst hq
        rw [mentions_outside_placeholder] at hall ⊢
        rw [if_pos rfl, takeWhile_spliced,
          ih hps fun m hm => hall m (List.mem_cons_of_mem _ hm)]
      · rw [mentions_quoted_placeholder hq] at hall ⊢
        rw [if_neg hq, ih hps hall]

/-! ## Where every placeholder stands apart -/

theorem length_standing_le (q : Quoting) (index : ℕ) (ps : List Piece) :
    (standing q index ps).length ≤ (ps.filterMap value?).length := by
  induction ps generalizing q index with
  | nil => exact le_rfl
  | cons p ps ih =>
    cases p with
    | char c => exact ih _ _
    | embed v =>
      have h := ih (q.after (placeholderName index).toList) (index + 1)
      rw [standing, List.filterMap_cons]
      split_ifs
      · exact Nat.succ_le_succ h
      · exact h.trans (Nat.le_succ _)

theorem after_outside_placeholder (index : ℕ) :
    Quoting.outside.after (placeholderName index).toList = .outside := by
  have hplain := fun c hc => isPlainChar_of_isWordPart (isWordPart_placeholder index c hc)
  have hafter := after_outside_of_plain hplain
  rw [placeholderName_toList]
  exact hafter

theorem append_ofList_eq_iff {s : String} {cs : List Char} :
    s ++ String.ofList cs = s ↔ cs = [] := by
  rw [← String.toList_inj, String.toList_append, String.toList_ofList, List.append_right_eq_self]

theorem takeWhile_eq_nil_iff_wordBreak {cs : List Char} :
    cs.takeWhile isWordPart = [] ↔ WordBreak cs := by
  cases cs with
  | nil => simp [WordBreak]
  | cons c cs => simp [WordBreak, List.takeWhile_cons]

/-- Each placeholder stands once, as it is and in order, exactly if all embedded values stand apart.
-/
theorem standing_eq_iff {q : Quoting} {index : ℕ} {ps : List Piece} :
    standing q index ps =
        (List.range' index (ps.filterMap value?).length).map placeholderName ↔ Apart q ps := by
  induction ps generalizing q index with
  | nil => exact iff_of_true rfl trivial
  | cons p ps ih =>
    cases p with
    | char c => exact ih
    | embed v =>
      rw [standing, Apart, List.filterMap_cons, value?, List.length_cons, List.range'_succ,
        List.map_cons]
      by_cases hq : q = .outside
      · subst hq
        rw [if_pos rfl, List.cons_eq_cons, append_ofList_eq_iff, takeWhile_eq_nil_iff_wordBreak,
          after_outside_placeholder, ih]
        exact (and_iff_right rfl).symm
      · -- between quotes it is lost, and the others are too few
        refine iff_of_false (fun h => ?_) fun h => hq h.1
        have hle := length_standing_le (q.after (placeholderName index).toList) (index + 1) ps
        rw [if_neg hq] at h
        rw [h, List.length_cons, List.length_map, List.length_range'] at hle
        omega

/-! ## What placeholders stand for -/

theorem lookup_bindings {vs : List Value} {index i : ℕ} {v : Value} (h : vs[i]? = some v) :
    (bindings index vs).lookup (placeholderName (index + i)) = some v := by
  induction vs generalizing index i with
  | nil => simp at h
  | cons u us ih =>
    rw [bindings]
    cases i with
    | zero =>
      obtain rfl : u = v := by simpa using h
      exact List.lookup_cons_self
    | succ i =>
      have hne : (placeholderName (index + (i + 1)) == placeholderName index) = false := by
        rw [beq_eq_false_iff_ne]
        intro hname
        have := placeholderName_injective hname
        omega
      rw [List.lookup_cons, hne, ← Nat.succ_add_eq_add_succ]
      exact ih h

theorem lookup_bindings_eq_none {vs : List Value} {index : ℕ} {name : String}
    (h : ∀ i < vs.length, name ≠ placeholderName (index + i)) :
    (bindings index vs).lookup name = none := by
  induction vs generalizing index with
  | nil => rfl
  | cons u us ih =>
    have hne : (name == placeholderName index) = false :=
      beq_eq_false_iff_ne.mpr (h 0 (Nat.succ_pos _))
    rw [bindings, List.lookup_cons, hne]
    refine ih fun i hi => ?_
    rw [Nat.succ_add_eq_add_succ]
    exact h (i + 1) (Nat.succ_lt_succ hi)

end Piece

theorem World.find?_environment (w : World) (refs : List (String × Value)) (name : String) :
    (w.environment refs).find? name = (refs.lookup name).map w.reference := by
  induction refs with
  | nil => rfl
  | cons ref refs ih =>
    obtain ⟨key, v⟩ := ref
    rw [Environment.find?, World.environment, List.map_cons, List.lookup_cons, List.lookup_cons]
    cases name == key with
    | true => rfl
    | false => exact ih

theorem TypeExpr.compileName_of_dollar {ρ : Type} {env : Environment ρ} {name : String}
    {cs : List Char} (h : name.toList = '$' :: cs) :
    compileName env name =
      match env.find? name with
      | some r => r.check name
      | none => .ok (.nominal name) := by
  have hfunction : name ≠ "Function" := by
    rintro rfl
    simp at h
  have hobject : name ≠ "Object" := by
    rintro rfl
    simp at h
  exact (if_neg hfunction).trans (if_neg hobject)

/-! ## Resolved templates -/

theorem lookup_eq_none_of_dollar {named : List (String × Value)}
    (h : ∀ p ∈ named, isIdentifier p.1.toList = true) {name : String} {cs : List Char}
    (hname : name.toList = '$' :: cs) : named.lookup name = none := by
  rw [List.lookup_eq_none_iff]
  intro p hp
  rw [bne_iff_ne]
  rintro rfl
  have hp := h p hp
  rw [hname] at hp
  exact absurd hp Bool.false_ne_true

namespace Resolved

variable {display : Value → String} {parts : List Value} {refs : List (Value × Value)}
  {r : Resolved} {t : TypeExpr}

theorem placeholders_eq_standing (hr : resolveTemplate display parts refs = .ok r)
    (ht : TypeExpr.parse (String.ofList r.text) = .ok t) :
    t.placeholders = Piece.standing .outside 0 (Piece.ofParts parts) := by
  obtain ⟨-, -, hwritten, rfl⟩ := resolveTemplate_eq_ok_iff.mp hr
  have hmentions := TypeExpr.placeholders_of_parse ht
  rw [String.toList_ofList] at hmentions
  rw [hmentions]
  apply Piece.mentions_spliced hwritten
  intro m hm
  rw [← hmentions] at hm
  exact TypeExpr.prefix_of_mem_placeholders hm

theorem find?_of_dollar (hr : resolveTemplate display parts refs = .ok r) (w : World)
    {name : String} {cs : List Char} (hname : name.toList = '$' :: cs) :
    (w.environment r.environment).find? name =
      ((Piece.bindings 0 ((Piece.ofParts parts).filterMap Piece.value?)).lookup name).map
        w.reference := by
  obtain ⟨hrefs, -, -, rfl⟩ := resolveTemplate_eq_ok_iff.mp hr
  rw [World.find?_environment, List.lookup_append,
    lookup_eq_none_of_dollar hrefs.isIdentifier hname, Option.none_or]

/-- The placeholders in the tree of a template are the ones that stand outside quotes, each with the
word characters after it. They are the placeholders of the embedded values, each once and in order,
exactly if every embedded value stands apart. Each of these is checked as the value that is embedded
there, and any other one by its name only. -/
theorem placeholders_eq_iff_apart (hr : resolveTemplate display parts refs = .ok r)
    (ht : TypeExpr.parse (String.ofList r.text) = .ok t) :
    let ps := Piece.ofParts parts
    let vs := ps.filterMap Piece.value?
    t.placeholders = Piece.standing .outside 0 ps ∧
      (t.placeholders = (List.range vs.length).map placeholderName ↔ Piece.Apart .outside ps) ∧
      ∀ w : World,
        (∀ i v, vs[i]? = some v →
          compileName (w.environment r.environment) (placeholderName i) =
            (w.reference v).check (placeholderName i)) ∧
        ∀ name ∈ t.placeholders, (∀ i < vs.length, name ≠ placeholderName i) →
          compileName (w.environment r.environment) name = .ok (.nominal name) := by
  intro ps vs
  have hstanding := placeholders_eq_standing hr ht
  refine ⟨hstanding, ?_, fun w => ⟨?_, ?_⟩⟩
  · rw [hstanding, List.range_eq_range']
    exact Piece.standing_eq_iff
  · intro i v hv
    have hname := Piece.placeholderName_toList i
    have hlookup : (Piece.bindings 0 vs).lookup (placeholderName i) = some v := by
      rw [← Nat.zero_add i]
      exact Piece.lookup_bindings hv
    rw [compileName_of_dollar hname, find?_of_dollar hr w hname, hlookup]
    rfl
  · intro name hmem hne
    obtain ⟨digits, hname⟩ := TypeExpr.prefix_of_mem_placeholders hmem
    have hlookup : (Piece.bindings 0 vs).lookup name = none := by
      apply Piece.lookup_bindings_eq_none
      intro i hi
      rw [Nat.zero_add]
      exact hne i hi
    rw [compileName_of_dollar hname.symm, find?_of_dollar hr w hname.symm, hlookup]
    rfl

/-- A class with a digit behind it: its placeholder takes the digit, and the class is not asked. -/
theorem placeholders_of_digit_after :
    let parts : List Value := [.type (.ofBuiltin .dict) [], .str "1"]
    ∃ r t, resolveTemplate World.empty.display parts [] = .ok r ∧
      TypeExpr.parse (String.ofList r.text) = .ok t ∧ t.placeholders = ["$Ref01"] ∧
      ¬ Piece.Apart .outside (Piece.ofParts parts) ∧
      t.compile (World.empty.environment r.environment) = .ok (.nominal "$Ref01") := by
  intro parts
  have hr : resolveTemplate World.empty.display parts [] =
      .ok ⟨"$Ref01".toList, [("$Ref0", .type (.ofBuiltin .dict) [])]⟩ := rfl
  have ht : TypeExpr.parse (String.ofList "$Ref01".toList) = .ok (named "$Ref01") := by
    rw [TypeExpr.parse_eq_ok_iff, ← Grammar.parseText_eq_ok_iff]
    cbv
  obtain ⟨hplaceholders, hapart, h⟩ := placeholders_eq_iff_apart hr ht
  have hnames : (named "$Ref01").placeholders = ["$Ref01"] := hplaceholders
  refine ⟨_, _, hr, ht, hnames, ?_, (h World.empty).2 "$Ref01" ?_ ?_⟩
  · rw [← hapart, hnames]
    decide
  · rw [hnames]
    exact List.mem_singleton_self _
  · decide

end Resolved

end TypeGuard
