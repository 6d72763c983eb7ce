import TypeGuard.Grammar.Parser
import TypeGuard.Proofs.Grammar.Completeness
import TypeGuard.Proofs.Grammar.Layout

/-! # Recognition

A text is parsed into a tree exactly if it is derived with that tree. The depth and the order in
which the productions are tried do not matter, and no text is derived with two trees.
-/

namespace TypeGuard

namespace Text

theorem trim_eq_nil_iff {cs : List Char} : trim cs = [] ↔ ∀ c ∈ cs, isBlank c = true := by
  have hinner : trim cs = [] ↔ ∀ c ∈ cs.dropWhile isBlank, isBlank c = true := by
    rw [trim, List.reverse_eq_nil_iff, List.dropWhile_eq_nil_iff]
    simp only [List.mem_reverse]
  rw [hinner, ← List.dropWhile_eq_nil_iff, ← List.dropWhile_eq_nil_iff,
    List.dropWhile_idempotent isBlank]

end Text

namespace Grammar

open Text TypeExpr

theorem parseText_eq_ok_iff {cs : List Char} {t : TypeExpr} :
    parseText cs = .ok t ↔ Derives cs t := by
  constructor
  · intro h
    obtain ⟨⟨t₀, rest⟩, ht, h⟩ := bind_eq_ok_iff.mp h
    simp only at h
    split at h
    · next hrest =>
      obtain rfl : t₀ = t := by simpa [pure, Except.pure] using h
      refine ⟨rest, parseUpTo_sound _ _ _ _ ht ?_, List.dropWhile_eq_nil_iff.mp hrest⟩
      simp [ahead, hrest]
    · simp [throw, throwThe, MonadExceptOf.throw] at h
  · rintro ⟨rest, ht, hrest⟩
    have hnil : skipGaps rest = [] := List.dropWhile_eq_nil_iff.mpr hrest
    have hends : Ends closers rest := by
      simp [Ends, ahead, hnil]
    have hread := (parseUpTo_serves (cs.length + 1)).complete _ _ _ ht (by omega) hends
    refine bind_eq_ok_iff.mpr ⟨_, hread, ?_⟩
    simp [hnil, pure, Except.pure]

theorem Derives.not_blank {cs : List Char} {t : TypeExpr} (h : Derives cs t) :
    ∃ c ∈ cs, isBlank c = false := by
  obtain ⟨rest, h, -⟩ := h
  obtain ⟨c, hc, hb⟩ := h.ahead_not_blank trivial
  refine ⟨c, ?_, hb⟩
  exact (List.dropWhile_sublist _).mem (List.mem_of_mem_head? hc)

end Grammar

open Text Grammar

theorem TypeExpr.parse_eq_ok_iff {source : String} {t : TypeExpr} :
    TypeExpr.parse source = .ok t ↔ Derives (expandTabs source.toList) t := by
  unfold TypeExpr.parse
  split
  · next hblank =>
    have hall := trim_eq_nil_iff.mp (List.isEmpty_iff.mp hblank)
    have hnone : ¬ Derives (expandTabs source.toList) t := by
      intro h
      obtain ⟨c, hc, hb⟩ := h.not_blank
      exact Bool.false_ne_true (hb.symm.trans (forall_mem_expandTabsFrom (by decide) hall 0 c hc))
    simp [hnone]
  · rw [← parseText_eq_ok_iff]
    simp only
    cases parseText (expandTabs source.toList) <;> simp

theorem TypeExpr.parse_eq_ok_iff_parseText {source : String} {t : TypeExpr} :
    TypeExpr.parse source = .ok t ↔ parseText (expandTabs source.toList) = .ok t :=
  parse_eq_ok_iff.trans parseText_eq_ok_iff.symm

/-- The parser recognizes the grammar, and reports an error for every other text. -/
theorem TypeExpr.parse_recognizes (source : String) :
    (∀ t, TypeExpr.parse source = .ok t ↔ Derives (expandTabs source.toList) t) ∧
      ((∃ e, TypeExpr.parse source = .error e) ↔
        ¬ ∃ t, Derives (expandTabs source.toList) t) ∧
      {t | Derives (expandTabs source.toList) t}.Subsingleton := by
  refine ⟨fun t => parse_eq_ok_iff, ?_, ?_⟩
  · simp only [← parse_eq_ok_iff]
    cases TypeExpr.parse source <;> simp
  · intro t ht u hu
    have h := (parse_eq_ok_iff.mpr ht).symm.trans (parse_eq_ok_iff.mpr hu)
    exact Except.ok.inj h

end TypeGuard
