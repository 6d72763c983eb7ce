import TypeGuard.Proofs.Grammar.Layout
import TypeGuard.Proofs.Grammar.Quotation

/-! # Spaces between quotes

What stands between quotes may hold spaces, and tabs that are laid out as spaces. Neither where the
text in quotes ends nor what is around a run of spaces in it depends on the width of the run.
-/

namespace TypeGuard.Grammar

open Text

variable {quote : Char} {body cs : List Char}

/-! ## Bodies -/

theorem QuotedBody.split_space {before after : List Char}
    (h : QuotedBody quote (before ++ ' ' :: after)) :
    QuotedBody quote after ∧
      ∀ after', QuotedBody quote after' → QuotedBody quote (before ++ ' ' :: after') := by
  generalize hcs : before ++ ' ' :: after = cs at h
  induction h generalizing before with
  | nil => simp at hcs
  | @escape c cs hc h ih =>
    match before, hcs with
    | ['\\'], hcs =>
      obtain ⟨rfl, rfl⟩ : ' ' = c ∧ after = cs := by simpa using hcs
      exact ⟨h, fun after' h' => .escape hc h'⟩
    | b :: d :: before, hcs =>
      obtain ⟨rfl, rfl, rfl⟩ : b = '\\' ∧ d = c ∧ before ++ ' ' :: after = cs := by simpa using hcs
      obtain ⟨hafter, hany⟩ := ih rfl
      exact ⟨hafter, fun after' h' => .escape hc (hany after' h')⟩
  | @plain c cs hne hb hn hr h ih =>
    match before, hcs with
    | [], hcs =>
      obtain ⟨rfl, rfl⟩ := List.cons.inj hcs
      exact ⟨h, fun after' h' => .plain hne hb hn hr h'⟩
    | d :: before, hcs =>
      obtain ⟨rfl, rfl⟩ := List.cons.inj hcs
      obtain ⟨hafter, hany⟩ := ih rfl
      exact ⟨hafter, fun after' h' => .plain hne hb hn hr (hany after' h')⟩

theorem QuotedBody.spaces (hq : quote ≠ ' ')
    (h : QuotedBody quote body) (n : ℕ) : QuotedBody quote (List.replicate n ' ' ++ body) := by
  induction n with
  | zero => exact h
  | succ n ih => exact .plain hq.symm (by decide) (by decide) (by decide) ih

theorem QuotedBody.of_spaces {n : ℕ}
    (h : QuotedBody quote (List.replicate n ' ' ++ body)) : QuotedBody quote body := by
  induction n with
  | zero => exact h
  | succ n ih =>
    have hcons : QuotedBody quote ([] ++ ' ' :: (List.replicate n ' ' ++ body)) := h
    exact ih hcons.split_space.1

theorem QuotedBody.run {before after : List Char} {m : ℕ} (hq : quote ≠ ' ')
    (h : QuotedBody quote (before ++ List.replicate (m + 1) ' ' ++ after)) (n : ℕ) :
    QuotedBody quote (before ++ List.replicate (n + 1) ' ' ++ after) := by
  rw [List.append_assoc, List.replicate_succ, List.cons_append] at h ⊢
  obtain ⟨hafter, hany⟩ := h.split_space
  exact hany _ (hafter.of_spaces.spaces hq n)

/-! ## Layout -/

theorem QuotedBody.expandTabsFrom (hq : quote ≠ ' ') (h : QuotedBody quote body) (column : ℕ) :
    QuotedBody quote (expandTabsFrom column body) := by
  induction h generalizing column with
  | nil => exact .nil
  | @escape c cs hc _ ih =>
    obtain ⟨next, hnext⟩ := expandTabsFrom_cons (show '\\' ≠ '\t' by decide) column
    rw [hnext]
    by_cases htab : c = '\t'
    · obtain ⟨n, hn⟩ := exists_tabWidth next
      rw [htab, expandTabsFrom_tab, hn]
      exact .escape (by decide) ((ih 0).spaces hq n)
    · obtain ⟨next', hnext'⟩ := expandTabsFrom_cons htab next
      rw [hnext']
      exact .escape hc (ih next')
  | @plain c cs hne hb hn hr _ ih =>
    by_cases htab : c = '\t'
    · rw [htab, expandTabsFrom_tab]
      exact (ih 0).spaces hq _
    · obtain ⟨next, hnext⟩ := expandTabsFrom_cons htab column
      rw [hnext]
      exact .plain hne hb hn hr (ih next)

theorem quotedBody_cons {c : Char} (hc : c ≠ '\\') (cs : List Char) :
    quotedBody quote (c :: cs) =
      if c = quote then some ([], cs)
      else if c = '\n' || c = '\r' then none
      else (quotedBody quote cs).map fun (body, rest) => (c :: body, rest) := by
  rw [quotedBody] <;> simp [hc]

theorem quotedBody_spaces_eq_none (hq : quote ≠ ' ') (h : quotedBody quote cs = none) (n : ℕ) :
    quotedBody quote (List.replicate n ' ' ++ cs) = none := by
  induction n with
  | zero => exact h
  | succ n ih =>
    rw [List.replicate_succ, List.cons_append, quotedBody_cons (by decide), if_neg hq.symm, ih]
    rfl

theorem quotedBody_expandTabsFrom_eq_none (hq : quote ≠ ' ') (h : quotedBody quote cs = none)
    (column : ℕ) : quotedBody quote (expandTabsFrom column cs) = none := by
  have hback : '\\' ≠ '\t' := by decide
  -- A plain character is no backslash, neither before the end nor before another character.
  have hplain {c : Char} {cs : List Char} (hend : c = '\\' → cs = [] → False)
      (hescape : ∀ d ds, c = '\\' → cs = d :: ds → False) : c ≠ '\\' := by
    intro hc
    cases cs with
    | nil => exact hend hc rfl
    | cons d ds => exact hescape d ds hc rfl
  fun_induction quotedBody quote cs generalizing column with
  | case1 => rfl
  | case2 => rfl
  | case3 cs =>
    obtain ⟨next, hnext⟩ := expandTabsFrom_cons hback column
    obtain ⟨next', hnext'⟩ := expandTabsFrom_cons (show '\n' ≠ '\t' by decide) next
    rw [hnext, hnext', quotedBody, if_pos rfl]
  | case4 c cs hc ih =>
    have hcs := Option.map_eq_none_iff.mp h
    obtain ⟨next, hnext⟩ := expandTabsFrom_cons hback column
    rw [hnext]
    by_cases htab : c = '\t'
    · obtain ⟨n, hn⟩ := exists_tabWidth next
      rw [htab, expandTabsFrom_tab, hn, List.replicate_succ, List.cons_append, quotedBody,
        quotedBody_spaces_eq_none hq (ih hcs 0)]
      rfl
    · obtain ⟨next', hnext'⟩ := expandTabsFrom_cons htab next
      rw [hnext', quotedBody, ih hcs next', if_neg hc]
      rfl
  | case5 => cases h
  | case6 c cs hend hescape hne hline =>
    have htab : c ≠ '\t' := by rintro rfl; exact absurd hline (by decide)
    obtain ⟨next, hnext⟩ := expandTabsFrom_cons htab column
    rw [hnext, quotedBody_cons (hplain hend hescape), if_neg hne, if_pos hline]
  | case7 c cs hend hescape hne hline ih =>
    have hcs := Option.map_eq_none_iff.mp h
    by_cases htab : c = '\t'
    · rw [htab, expandTabsFrom_tab]
      exact quotedBody_spaces_eq_none hq (ih hcs 0) _
    · obtain ⟨next, hnext⟩ := expandTabsFrom_cons htab column
      rw [hnext, quotedBody_cons (hplain hend hescape), ih hcs next, if_neg hne, if_neg hline]
      rfl

/-! ## Escapes before spaces -/

theorem codeEscape_before_space (letter : Char) (cs : List Char) :
    (∀ after, codeEscape letter (cs ++ ' ' :: after) = none) ∨
      ∃ d cs', cs'.length ≤ cs.length ∧
        ∀ after, codeEscape letter (cs ++ ' ' :: after) = some (d, cs' ++ ' ' :: after) := by
  match cs with
  | [] => exact .inl fun after => by cases after <;> rfl
  | [h] =>
    refine .inl fun after => ?_
    simp only [List.singleton_append, codeEscape]
    cases hexValue h <;> simp
  | h :: d :: cs =>
    simp only [List.cons_append, codeEscape]
    cases hexValue h with
    | none => exact .inl fun _ => rfl
    | some n =>
      simp only
      split_ifs
      · exact .inr ⟨_, cs, by simp; omega, fun _ => rfl⟩
      · exact .inr ⟨_, cs, by simp; omega, fun _ => rfl⟩
      · exact .inl fun _ => rfl

theorem escape_before_space (c : Char) (cs : List Char) :
    ∃ text cs', cs'.length ≤ cs.length ∧
      ∀ after, escape c (cs ++ ' ' :: after) = (text, cs' ++ ' ' :: after) := by
  cases hcontrol : controlEscape c with
  | some d => exact ⟨[d], cs, le_rfl, fun _ => by simp [escape, hcontrol]⟩
  | none =>
    by_cases hoctal : isOctalDigit c = true ∧ cs.head? = some '3'
    · obtain ⟨hc, hcs⟩ := hoctal
      obtain ⟨cs', rfl⟩ := List.head?_eq_some_iff.mp hcs
      exact ⟨[c, '3'], cs', by simp, fun _ => by simp [escape, hcontrol, hc]⟩
    have hoctal' (after : List Char) :
        ¬ (isOctalDigit c = true ∧ (cs ++ ' ' :: after).head? = some '3') := by
      cases cs with
      | nil => simp
      | cons => exact hoctal
    simp only [escape_of_not_octal hcontrol (hoctal' _)]
    by_cases hzero : c = '0'
    · exact ⟨['\x00'], cs, le_rfl, fun _ => if_pos hzero⟩
    simp only [if_neg hzero]
    rcases codeEscape_before_space c cs with hnone | ⟨d, cs', hle, hsome⟩
    · exact ⟨[c], cs, le_rfl, fun after => by rw [hnone]⟩
    · exact ⟨[d], cs', hle, fun after => by rw [hsome]⟩

theorem unescape_spaces (n : ℕ) (cs : List Char) :
    unescape (List.replicate n ' ' ++ cs) = List.replicate n ' ' ++ unescape cs := by
  induction n with
  | zero => rfl
  | succ n ih =>
    rw [List.replicate_succ, List.cons_append, unescape_cons (by decide), ih, List.cons_append]

theorem unescape_before_space (before : List Char) :
    ∃ text, ∀ after, unescape (before ++ ' ' :: after) = text ++ ' ' :: unescape after := by
  induction hk : before.length using Nat.strong_induction_on generalizing before with
  | _ k ih =>
    subst hk
    cases before with
    | nil => exact ⟨[], unescape_cons (by decide)⟩
    | cons c cs =>
      by_cases hc : c = '\\'
      · subst hc
        cases cs with
        | nil =>
          refine ⟨[], fun after => ?_⟩
          rw [List.singleton_append, unescape_escape, escape_of_ordinary rfl rfl (by decide)
            (by decide)]
          rfl
        | cons d cs =>
          obtain ⟨text, cs', hle, hescape⟩ := escape_before_space d cs
          obtain ⟨text', h⟩ := ih cs'.length (by simp only [List.length_cons]; omega) cs' rfl
          refine ⟨text ++ text', fun after => ?_⟩
          rw [List.cons_append, List.cons_append, unescape_escape, hescape, h, List.append_assoc]
      · obtain ⟨text, h⟩ := ih cs.length (by simp) cs rfl
        exact ⟨c :: text, fun after => by rw [List.cons_append, unescape_cons hc, h]; rfl⟩

theorem unescape_run (before after : List Char) :
    ∃ text, ∀ n, unescape (before ++ List.replicate (n + 1) ' ' ++ after) =
      text ++ List.replicate (n + 1) ' ' ++ unescape after := by
  obtain ⟨text, h⟩ := unescape_before_space before
  refine ⟨text, fun n => ?_⟩
  rw [List.append_assoc, List.replicate_succ, List.cons_append, h, unescape_spaces,
    List.append_assoc, List.cons_append]

/-! ## Runs of spaces -/

/-- A text in quotes stays one where a run of spaces has another width. It stands for the same text
up to spaces, and for the same text only if the width is the same. -/
theorem QuotedBody.of_stretched {w : List Char} (hbody : QuotedBody quote body)
    (hq : quote = '"' ∨ quote = '\'') (h : Stretched (quote :: (body ++ [quote])) w) :
    ∃ body', w = quote :: (body' ++ [quote]) ∧ QuotedBody quote body' ∧
      (unescape body').filter (· ≠ ' ') = (unescape body).filter (· ≠ ' ') ∧
      (unescape body' = unescape body ↔ body' = body) := by
  have hspace : quote ≠ ' ' := by rcases hq with rfl | rfl <;> decide
  generalize hv : quote :: (body ++ [quote]) = v at h
  cases h with
  | refl => exact ⟨body, hv.symm, hbody, rfl, by simp⟩
  | run before m n after =>
    obtain ⟨before, rfl⟩ : ∃ cs, before = quote :: cs := by
      cases before with
      | nil => exact absurd (List.cons.inj hv).1 hspace
      | cons c cs => exact ⟨cs, by rw [(List.cons.inj hv).1]⟩
    obtain ⟨after, rfl⟩ : ∃ cs, after = cs ++ [quote] := by
      rcases List.eq_nil_or_concat after with rfl | ⟨cs, c, rfl⟩
      · rw [List.append_nil, List.replicate_succ', ← List.append_assoc, ← List.cons_append] at hv
        exact absurd (List.append_inj_right' hv rfl) (by simpa using hspace)
      · rw [List.concat_eq_append, ← List.append_assoc, ← List.cons_append] at hv
        obtain rfl := (List.cons.inj (List.append_inj_right' hv rfl)).1
        exact ⟨cs, List.concat_eq_append⟩
    obtain rfl : body = before ++ List.replicate (m + 1) ' ' ++ after := by
      rw [List.cons_append, List.cons_append, ← List.append_assoc] at hv
      exact List.append_cancel_right (List.cons.inj hv).2
    refine ⟨before ++ List.replicate (n + 1) ' ' ++ after, by simp, hbody.run hspace n, ?_⟩
    obtain ⟨text, htext⟩ := unescape_run before after
    rw [htext, htext]
    constructor
    · simp [List.filter_append]
    · simp

end TypeGuard.Grammar
