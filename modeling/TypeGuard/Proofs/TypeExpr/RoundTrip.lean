import TypeGuard.Proofs.Grammar.Recognition
import TypeGuard.Proofs.TypeExpr.Rendering

/-! # Round trip

The tree of a text is written as a text with the same tree, up to what a quotation does to the texts
in it. Only characters that are neither printable ASCII nor one of four control characters, and
numbers that are not finite, are lost on the way.
-/

namespace TypeGuard

open Text Grammar

/-! ## The texts of a tree -/

namespace TypeExpr

def ownTexts : TypeExpr → List String
  | literal (.str s) => [s]
  | object ps => ps.map Property.key
  | _ => []

def texts (t : TypeExpr) : List String :=
  t.subtrees.flatMap ownTexts

theorem forall_mem_texts_iff {P : String → Prop} (t : TypeExpr) :
    (∀ s ∈ t.texts, P s) ↔
      (∀ s ∈ t.ownTexts, P s) ∧ ∀ u ∈ t.children, ∀ s ∈ u.texts, P s := by
  simp only [texts, List.forall_mem_flatMap]
  rw [subtrees_eq_children t, List.forall_mem_cons, List.forall_mem_flatMap]

theorem map_eq_self_iff {α : Type} {f : α → α} {as : List α} :
    as.map f = as ↔ ∀ a ∈ as, f a = a := by
  conv_lhs => rhs; rw [← List.map_id as]
  exact List.map_inj_left

theorem Grammatical.mapTexts_eq_self_iff {f : String → String} {t : TypeExpr} (h : t.Grammatical) :
    t.mapTexts f = t ↔ ∀ s ∈ t.texts, f s = s := by
  induction h with
  | @literal v _ =>
    rw [forall_mem_texts_iff]
    cases v <;> simp [mapTexts, Literal.mapText, ownTexts, children]
  | keyword hk =>
    rw [forall_mem_texts_iff]
    cases hk <;> simp [mapTexts, Literal.mapText, ownTexts, children]
  | named =>
    rw [forall_mem_texts_iff]
    simp [mapTexts, ownTexts, children]
  | nullable _ ih | array _ ih =>
    rw [forall_mem_texts_iff]
    simp [mapTexts, ownTexts, children, ih]
  | tuple _ ih =>
    rw [forall_mem_texts_iff, mapTexts_tuple, tuple.injEq, map_eq_self_iff,
      forall₂_congr ih]
    simp [ownTexts, children]
  | @object ps _ ih =>
    have hproperty (p : Property TypeExpr) :
        (⟨f p.key, p.optional, p.value.mapTexts f⟩ : Property TypeExpr) = p ↔
          f p.key = p.key ∧ p.value.mapTexts f = p.value := by
      cases p
      simp
    rw [forall_mem_texts_iff, mapTexts_object, object.injEq, map_eq_self_iff]
    simp only [hproperty, ownTexts, children, List.forall_mem_map, ← forall₂_and]
    exact forall₂_congr fun p hp => and_congr_right fun _ => ih p hp
  | union _ _ ih =>
    rw [forall_mem_texts_iff, mapTexts_union, union.injEq, map_eq_self_iff,
      forall₂_congr ih]
    simp [ownTexts, children]
  | intersection _ _ ih =>
    rw [forall_mem_texts_iff, mapTexts_intersection, intersection.injEq, map_eq_self_iff,
      forall₂_congr ih]
    simp [ownTexts, children]
  | function _ _ ihps iht =>
    rw [forall_mem_texts_iff, mapTexts_function, function.injEq, map_eq_self_iff,
      forall₂_congr ihps, iht]
    simp [ownTexts, children, or_imp, forall_and]

end TypeExpr

theorem TypeExpr.IsPlain.printable {t : TypeExpr} (h : t.IsPlain) :
    ∀ s ∈ t.texts, ∀ c ∈ s.toList, IsPrintableAscii c := by
  intro s hs
  obtain ⟨u, hu, hs⟩ := List.mem_flatMap.mp hs
  have hroot := h u hu
  unfold ownTexts at hs
  split at hs
  · rw [List.mem_singleton.mp hs]
    exact hroot
  · obtain ⟨p, hp, rfl⟩ := List.mem_map.mp hs
    exact hroot p hp
  · exact absurd hs List.not_mem_nil

/-- A text that is a type whatever follows it is parsed as that type. -/
theorem Writes.parse_eq {cs : List Char} {t : TypeExpr} (h : Writes .type cs t) :
    TypeExpr.parse (String.ofList cs) = .ok t := by
  have hphrase := h.phrase [] wordBreak_nil
  rw [List.append_nil] at hphrase
  rw [TypeExpr.parse_eq_ok_iff, String.toList_ofList, expandTabs, expandTabsFrom_of_not_mem h.noTab]
  exact ⟨[], hphrase, by simp⟩

theorem TypeExpr.parse_name {name : String} (h : IsName name) :
    TypeExpr.parse name = .ok (named name) := by
  have hwrites : WritesAt .function name.toList (named name) := .ofPrimary (writes_name h)
  rw [← hwrites.parse_eq, String.ofList_toList]

theorem TypeExpr.Grammatical.parse_text {t : TypeExpr} (h : t.Grammatical) (hf : t.IsFinite) :
    TypeExpr.parse t.text = .ok (t.mapTexts reread) :=
  Writes.parse_eq (h.writesAt_render hf .function)

/-- The text of a parsed tree is parsed into the same tree. -/
theorem TypeExpr.parse_text_of_parse {source : String} {n : TypeExpr}
    (h : TypeExpr.parse source = .ok n) (hp : n.IsPlain) : TypeExpr.parse n.text = .ok n := by
  obtain ⟨rest, hphrase, -⟩ := parse_eq_ok_iff.mp h
  have hn : n.Grammatical := hphrase.denotes
  rw [hn.parse_text hp.isFinite, hn.mapTexts_eq_self_iff.mpr]
  exact fun s hs => reread_of_printable (hp.printable s hs)

/-- A nullable array of a union, from a text with other quotes and other brackets than its own. -/
theorem TypeExpr.parse_text_of_nullable_array :
    let n := nullable (array (union
      [literal (.str "x y"), literal (.float (.finite false 6755399441055744 (-52)))]))
    TypeExpr.parse "?('x y'|1.5)[]" = .ok n ∧ n.IsPlain ∧ TypeExpr.parse n.text = .ok n := by
  intro n
  have hparse : TypeExpr.parse "?('x y'|1.5)[]" = .ok n := by
    rw [parse_eq_ok_iff, ← parseText_eq_ok_iff]
    cbv
  have hplain : n.IsPlain := by
    simp [n, IsPlain, subtrees, subtrees.ofList, HasPlainRoot, Literal.IsPlain,
      Binary64.IsFinite, IsPrintableAscii]
  exact ⟨hparse, hplain, parse_text_of_parse hparse hplain⟩

/-- The text of a parsed tree is parsed into the tree with its texts reread: each literal text and
each key comes back as itself if and only if all its characters are kept, and so does the tree. -/
theorem TypeExpr.parse_text_rereads {source : String} {n : TypeExpr}
    (h : TypeExpr.parse source = .ok n) (hf : n.IsFinite) :
    TypeExpr.parse n.text = .ok (n.mapTexts reread) ∧
      (∀ s ∈ n.texts, reread s = s ↔ ∀ c ∈ s.toList, IsKept c) ∧
      (TypeExpr.parse n.text = .ok n ↔ ∀ s ∈ n.texts, ∀ c ∈ s.toList, IsKept c) := by
  obtain ⟨rest, hphrase, -⟩ := parse_eq_ok_iff.mp h
  have hn : n.Grammatical := hphrase.denotes
  have hparse := hn.parse_text hf
  refine ⟨hparse, fun s _ => reread_eq_self_iff, ?_⟩
  rw [hparse, Except.ok.injEq, hn.mapTexts_eq_self_iff]
  exact forall₂_congr fun s _ => reread_eq_self_iff

/-- A key with a letter beyond ASCII is lost, and a line feed is kept. -/
theorem TypeExpr.parse_text_rereads_key :
    let n := object [⟨"\u00e9", false, literal (.str "\n")⟩]
    TypeExpr.parse "\x7b'\u00e9': '\\n'\x7d" = .ok n ∧ n.IsFinite ∧
      TypeExpr.parse n.text = .ok (object [⟨"u00e9", false, literal (.str "\n")⟩]) ∧
      TypeExpr.parse n.text ≠ .ok n := by
  intro n
  have hparse : TypeExpr.parse "\x7b'\u00e9': '\\n'\x7d" = .ok n := by
    rw [parse_eq_ok_iff, ← parseText_eq_ok_iff]
    cbv
  have hfinite : n.IsFinite := by
    simp [n, IsFinite, subtrees, subtrees.ofProperties]
  obtain ⟨hreread, -, hiff⟩ := parse_text_rereads hparse hfinite
  refine ⟨hparse, hfinite, hreread, ?_⟩
  rw [Ne, hiff]
  intro hkept
  have hletter : IsKept '\u00e9' := hkept "\u00e9" (by simp [n, texts, subtrees, ownTexts]) _ (by simp)
  simp [IsKept, IsPrintableAscii] at hletter

end TypeGuard
