import TypeGuard.Proofs.Grammar.Reading

/-! # Soundness

What is read as a type is a phrase of the grammar. A word before `$` is read as a name although it
may be a keyword; nothing can be read after it, so readings are sound unless `$` follows them.
-/

namespace TypeGuard.Grammar

open Text TypeExpr

/-- A reader of phrases, unless what follows begins with `$`. -/
def Sound (s : Symbol) (p : Reader s.Value) : Prop :=
  ∀ cs v rest, p cs = .ok (v, rest) → ahead rest ≠ some '$' → Phrase s cs v rest

theorem Spelled.ahead_ne_dollar {c : Char} {w cs rest : List Char} (h : Spelled (c :: w) cs rest)
    (hc : isGap c = false) (hd : c ≠ '$') : ahead cs ≠ some '$' := by
  rw [h.ahead_eq hc]
  simpa using hd

theorem Delimits.ahead_ne_dollar {d : Delimiter} {cs rest : List Char} (h : Delimits d cs rest) :
    ahead cs ≠ some '$' := by
  obtain ⟨c, hc, hn⟩ := h.ahead_eq
  rw [hn]
  rintro ⟨⟩
  revert hc
  cases d <;> decide

theorem require_symbol {c : Char} {e : Expectation} {cs : List Char} {r : Unit × List Char}
    (hc : isGap c = false) (h : require (symbol c) e cs = .ok r) : Spelled [c] cs r.2 :=
  (symbol_eq_some_iff hc).mp (require_eq_ok_iff.mp h)

theorem maybe_optional {α : Type} {p : Attempt α} {token : List Char → List Char → Prop}
    {cs : List Char} (h : ∀ a rest, p cs = some (a, rest) → token cs rest) :
    Maybe token cs (Grammar.optional p cs) := by
  rcases hp : p cs with _ | ⟨a, rest⟩
  · exact .inl (optional_of_none hp)
  · rw [optional_of_some hp]
    exact .inr (h a rest hp)

theorem maybe_symbol {c : Char} {cs : List Char} (hc : isGap c = false) :
    Maybe (Spelled [c]) cs (Grammar.optional (symbol c) cs) :=
  maybe_optional fun _ _ => (symbol_eq_some_iff hc).mp

/-! ## Lists -/

section Lists

variable {d : Delimiter} {delimiter : Attempt Unit} {s : Symbol} {p : Reader s.Value}

theorem repeatAttempt_sound (hd : ∀ cs u rest, delimiter cs = some (u, rest) → Delimits d cs rest)
    (hp : Sound s p) {n : Nat} {cs rest : List Char} {as : List s.Value}
    (h : repeatAttempt (after delimiter p) n cs = (as, rest)) (hr : ahead rest ≠ some '$') :
    as = [] ∧ rest = cs ∨ ∃ r, Delimits d cs r ∧ Phrase (.list d s) r as rest := by
  induction n generalizing cs as with
  | zero =>
    simp only [repeatAttempt, Prod.mk.injEq] at h
    exact .inl ⟨h.1.symm, h.2.symm⟩
  | succ n ih =>
    rw [repeatAttempt] at h
    split at h
    · simp only [Prod.mk.injEq] at h
      exact .inl ⟨h.1.symm, h.2.symm⟩
    · next a r' ha =>
      obtain ⟨u, r, hdelim, hread⟩ := after_eq_some_iff.mp ha
      cases hrec : repeatAttempt (after delimiter p) n r' with
      | mk as' rest' =>
        simp only [hrec, Prod.mk.injEq] at h
        obtain ⟨rfl, rfl⟩ := h
        refine .inr ⟨r, hd _ _ _ hdelim, ?_⟩
        obtain ⟨rfl, rfl⟩ | ⟨r'', hd', hlist⟩ := ih hrec
        · exact .single (hp _ _ _ hread hr)
        · exact .cons (hp _ _ _ hread hd'.ahead_ne_dollar) hd' hlist

theorem list_sound (hd : ∀ cs u rest, delimiter cs = some (u, rest) → Delimits d cs rest)
    (hp : Sound s p) {cs r rest : List Char} {a : s.Value} {as : List s.Value}
    (ha : ahead r ≠ some '$' → Phrase s cs a r) (h : moreElements delimiter p r = (as, rest))
    (hr : ahead rest ≠ some '$') : Phrase (.list d s) cs (a :: as) rest := by
  obtain ⟨rfl, rfl⟩ | ⟨r', hd', hlist⟩ := repeatAttempt_sound hd hp h hr
  · exact .single (ha hr)
  · exact .cons (ha hd'.ahead_ne_dollar) hd' hlist

theorem elements_sound (hd : ∀ cs u rest, delimiter cs = some (u, rest) → Delimits d cs rest)
    (hp : Sound s p) {cs rest : List Char} {as : List s.Value}
    (h : elements delimiter p cs = (as, rest)) (hr : ahead rest ≠ some '$') :
    as = [] ∧ rest = cs ∨ Phrase (.list d s) cs as rest := by
  unfold elements at h
  split at h
  · simp only [Prod.mk.injEq] at h
    exact .inl ⟨h.1.symm, h.2.symm⟩
  · next a r ha =>
    simp only [Prod.mk.injEq] at h
    obtain ⟨rfl, rfl⟩ := h
    exact .inr (list_sound hd hp (hp _ _ _ ha) rfl hr)

theorem elements_sound_optional
    (hd : ∀ cs u rest, delimiter cs = some (u, rest) → Delimits d cs rest) (hp : Sound s p)
    {cs rest : List Char} {as : List s.Value} (h : elements delimiter p cs = (as, rest))
    (hr : ahead rest ≠ some '$') : Phrase (.optional d s) cs as rest := by
  obtain ⟨rfl, rfl⟩ | hlist := elements_sound hd hp h hr
  · exact .absent
  · exact .present hlist

end Lists

theorem symbol_delimits {d : Delimiter} {c : Char} (hc : c ∈ d.chars) (cs : List Char) (u : Unit)
    (rest : List Char) (h : symbol c cs = some (u, rest)) : Delimits d cs rest :=
  ⟨c, hc, (symbol_eq_some_iff (d.isGap_eq_false c hc)).mp h⟩

theorem propertyDelimiter_delimits (cs : List Char) (u : Unit) (rest : List Char)
    (h : propertyDelimiter cs = some (u, rest)) : Delimits .commaOrSemicolon cs rest := by
  unfold propertyDelimiter at h
  split at h
  · next r hr =>
    cases h
    exact symbol_delimits (by decide) _ _ _ hr
  · exact symbol_delimits (by decide) _ _ _ h

theorem maybe_propertyDelimiter (cs : List Char) :
    Maybe (Delimits .commaOrSemicolon) cs (Grammar.optional propertyDelimiter cs) :=
  maybe_optional (propertyDelimiter_delimits cs)

theorem Maybe.ahead_ne_dollar {d : Delimiter} {cs rest : List Char}
    (h : Maybe (Delimits d) cs rest) (hr : ahead rest ≠ some '$') : ahead cs ≠ some '$' := by
  rcases h with rfl | h
  · exact hr
  · exact h.ahead_ne_dollar

theorem paramName_sound {cs rest : List Char} {u : Unit} (h : paramName cs = some (u, rest)) :
    ParamName cs rest := by
  unfold paramName at h
  split at h
  · next name r hi =>
    exact ⟨name, r, identifier_eq_some_iff.mp hi, (symbol_eq_some_iff rfl).mp h⟩
  · simp at h

theorem propertyKey_sound {key : String} {cs rest : List Char}
    (h : propertyKey cs = some (key, rest)) : PropertyKey key cs rest := by
  unfold propertyKey at h
  split at h
  · next r hi =>
    cases h
    exact .inl (identifier_eq_some_iff.mp hi)
  · exact .inr (quoted_eq_some_iff.mp h)

theorem optionalMark_sound (cs : List Char) :
    OptionalMark (symbol '?' cs).isSome cs (Grammar.optional (symbol '?') cs) := by
  rcases h : symbol '?' cs with _ | ⟨u, rest⟩
  · simp [OptionalMark, optional_of_none h]
  · simpa [OptionalMark, optional_of_some h] using (symbol_eq_some_iff rfl).mp h

theorem numeral_sound {v : Literal} {cs rest : List Char}
    (h : numeral (skipGaps cs) = some (v, rest)) : NumberLiteral v cs rest := by
  unfold numeral at h
  simp only [Option.map_eq_some_iff, Prod.mk.injEq, Prod.exists] at h
  obtain ⟨n, _, hn, rfl, rfl⟩ := h
  obtain ⟨w, hw, hs⟩ := Numeral.scan_sound hn
  exact ⟨n, w, hw, rfl, spelled_of_skipGaps hs⟩

/-! ## Rules -/

section Rules

variable {type : Reader TypeExpr} (ht : Sound .type type)

include ht

theorem param_sound : Sound .param (param type) := by
  intro cs t rest h hr
  exact .param (maybe_optional fun _ _ => paramName_sound) (ht _ _ _ h hr)

theorem property_sound : Sound .property (Grammar.property type) := by
  intro cs p rest h hr
  obtain ⟨⟨key, r₁⟩, hk, h⟩ := bind_eq_ok_iff.mp h
  obtain ⟨⟨_, r₃⟩, hc, h⟩ := bind_eq_ok_iff.mp h
  obtain ⟨⟨t, r₄⟩, hv, h⟩ := bind_eq_ok_iff.mp h
  simp only [pure, Except.pure, Except.ok.injEq, Prod.mk.injEq] at h
  obtain ⟨rfl, rfl⟩ := h
  have hkey : PropertyKey key cs r₁ := propertyKey_sound (require_eq_ok_iff.mp hk)
  exact .property hkey (optionalMark_sound r₁) (require_symbol rfl hc) (ht _ _ _ hv hr)

theorem tupleBody_sound {cs₀ cs rest : List Char} {t : TypeExpr} (h₀ : Spelled ['['] cs₀ cs)
    (h : tupleBody type cs = .ok (t, rest)) : Phrase .primary cs₀ t rest := by
  unfold tupleBody at h
  cases he : elements (symbol ',') type cs with
  | mk ts r =>
    rw [he] at h
    obtain ⟨⟨_, r'⟩, hc, h⟩ := bind_eq_ok_iff.mp h
    simp only [pure, Except.pure, Except.ok.injEq, Prod.mk.injEq] at h
    obtain ⟨rfl, rfl⟩ := h
    have hclose := require_symbol rfl hc
    have hn := hclose.ahead_ne_dollar rfl (by decide)
    exact .tuple h₀ (elements_sound_optional (symbol_delimits (by decide)) ht he hn) hclose

theorem objectBody_sound {cs₀ cs rest : List Char} {t : TypeExpr} (h₀ : Spelled ['{'] cs₀ cs)
    (h : objectBody type cs = .ok (t, rest)) : Phrase .primary cs₀ t rest := by
  unfold objectBody at h
  cases he : elements propertyDelimiter (Grammar.property type) cs with
  | mk ps r =>
    rw [he] at h
    obtain ⟨⟨_, r'⟩, hc, h⟩ := bind_eq_ok_iff.mp h
    simp only [pure, Except.pure, Except.ok.injEq, Prod.mk.injEq] at h
    obtain ⟨rfl, rfl⟩ := h
    have hclose := require_symbol rfl hc
    have hn := hclose.ahead_ne_dollar rfl (by decide)
    have hsound := elements_sound propertyDelimiter_delimits (property_sound ht) he
    by_cases hps : ps = []
    · subst hps
      obtain ⟨-, rfl⟩ | hlist := hsound hn
      · exact .emptyObject h₀ hclose
      · exact .object h₀ hlist (.inl rfl) hclose
    · rw [if_neg (by simpa using hps)] at hclose hn
      have hmaybe := maybe_propertyDelimiter r
      obtain ⟨rfl, -⟩ | hlist := hsound (hmaybe.ahead_ne_dollar hn)
      · exact absurd rfl hps
      · exact .object h₀ hlist hmaybe hclose

theorem wordType_sound {name : String} {cs r rest : List Char} {t : TypeExpr}
    (hw : Word name cs r) (h : wordType type name r = (t, rest)) (hr : ahead rest ≠ some '$') :
    Phrase .primary cs t rest := by
  unfold wordType at h
  have hname (hk : keyword name = none) : Phrase .primary cs (named name) r :=
    .name hw (keyword_eq_none_iff.mp hk)
  split_ifs at h with hd ha
  · obtain ⟨-, rfl⟩ := Prod.mk.inj h
    exact absurd (ahead_of_head? hd rfl) hr
  · subst ha
    split at h
    · next tr htr =>
      subst h
      obtain ⟨⟨_, r₂⟩, ho, htr⟩ := bind_eq_ok_iff.mp htr
      obtain ⟨⟨t, r₃⟩, hv, htr⟩ := bind_eq_ok_iff.mp htr
      obtain ⟨⟨_, r₄⟩, hc, htr⟩ := bind_eq_ok_iff.mp htr
      simp only [pure, Except.pure, Except.ok.injEq, Prod.mk.injEq] at htr
      obtain ⟨rfl, rfl⟩ := htr
      have hclose := require_symbol rfl hc
      exact .arrayOf hw (require_symbol rfl ho)
        (ht _ _ _ hv (hclose.ahead_ne_dollar rfl (by decide))) hclose
    · cases h
      exact hname rfl
  · simp only [Prod.mk.injEq] at h
    obtain ⟨rfl, rfl⟩ := h
    rcases hk : keyword name with _ | t
    · exact hname hk
    · exact .keyword hw (keyword_eq_some_iff.mp hk)

theorem closeGroup_sound {cs₀ cs rest : List Char} {t : TypeExpr} (h₀ : Spelled ['('] cs₀ cs)
    (h : closeGroup (type cs) = .ok (t, rest)) : Phrase .primary cs₀ t rest := by
  obtain ⟨⟨t, r⟩, hv, h⟩ := bind_eq_ok_iff.mp h
  obtain ⟨⟨_, r'⟩, hc, h⟩ := bind_eq_ok_iff.mp h
  simp only [pure, Except.pure, Except.ok.injEq, Prod.mk.injEq] at h
  obtain ⟨rfl, rfl⟩ := h
  have hclose := require_symbol rfl hc
  exact .group h₀ (ht _ _ _ hv (hclose.ahead_ne_dollar rfl (by decide))) hclose

theorem primary_sound : Sound .primary (primary type) := by
  intro cs t rest h hr
  unfold primary at h
  simp only at h
  split at h
  · simp at h
  · next c r hs =>
    have hspelled (hg : isGap c = false) : Spelled [c] cs r := by rw [spelled_iff hg, hs]; rfl
    split_ifs at h with h₁ h₂ h₃ h₄
    · subst h₁
      exact tupleBody_sound ht (hspelled rfl) h
    · subst h₂
      exact objectBody_sound ht (hspelled rfl) h
    · subst h₃
      exact closeGroup_sound ht (hspelled rfl) h
    · simp only [Except.ok.injEq] at h
      refine wordType_sound ht ?_ h hr
      rw [← identifier_eq_some_iff]
      simp [identifier, hs, h₄]
    · split at h
      · next v r' hv =>
        obtain ⟨rfl, rfl⟩ := h
        exact .number (numeral_sound hv)
      · split at h
        · next s r' hq =>
          obtain ⟨rfl, rfl⟩ := h
          exact .string (quoted_eq_some_iff.mp hq).of_skipGaps
        · split at h
          · next name r' hp =>
            obtain ⟨rfl, rfl⟩ := h
            obtain ⟨hn, hsp⟩ := placeholder_sound hp
            exact .placeholder hn hsp.of_skipGaps
          · simp at h

omit ht in
theorem suffixes_sound {n : Nat} {cs rest : List Char} {marks : List Unit}
    (h : repeatAttempt arraySuffix n cs = (marks, rest)) : Suffixes marks.length cs rest := by
  induction n generalizing cs marks with
  | zero =>
    obtain ⟨rfl, rfl⟩ := Prod.mk.inj h
    exact .zero
  | succ n ih =>
    rw [repeatAttempt] at h
    split at h
    · obtain ⟨rfl, rfl⟩ := Prod.mk.inj h
      exact .zero
    · next u r hm =>
      obtain ⟨rfl, rfl⟩ := Prod.mk.inj h
      exact .succ (arraySuffix_eq_some_iff.mp hm) (ih rfl)

omit ht in
theorem Suffixes.ahead_ne_dollar {n : Nat} {cs rest : List Char} (h : Suffixes n cs rest)
    (hr : ahead rest ≠ some '$') : ahead cs ≠ some '$' := by
  cases h with
  | zero => exact hr
  | succ h _ => simp [h.ahead_eq]

theorem postfixType_sound : Sound .suffixed (postfixType type) := by
  intro cs t rest h hr
  obtain ⟨⟨t₀, r⟩, hp, h⟩ := bind_eq_ok_iff.mp h
  simp only [suffixes, List.foldl_const, pure, Except.pure, Except.ok.injEq] at h
  obtain ⟨rfl, rfl⟩ := Prod.mk.inj h
  have hsuffixes : Suffixes (many arraySuffix r).1.length r (many arraySuffix r).2 :=
    suffixes_sound (show repeatAttempt arraySuffix r.length r = many arraySuffix r from rfl)
  exact .suffixed (primary_sound ht _ _ _ hp (hsuffixes.ahead_ne_dollar hr)) hsuffixes

omit ht in
theorem prefixes_sound {n : Nat} {cs r rest : List Char} {t : TypeExpr} {marks : List Unit}
    (h : repeatAttempt (symbol '?') n cs = (marks, r)) (h₀ : Phrase .nullable r t rest) :
    Phrase .nullable cs (marks.foldl (fun t _ => nullable t) t) rest := by
  rw [List.foldl_const]
  induction n generalizing cs marks with
  | zero =>
    obtain ⟨rfl, rfl⟩ := Prod.mk.inj h
    exact h₀
  | succ n ih =>
    rw [repeatAttempt] at h
    split at h
    · obtain ⟨rfl, rfl⟩ := Prod.mk.inj h
      exact h₀
    · next u r' hm =>
      obtain ⟨rfl, rfl⟩ := Prod.mk.inj h
      rw [List.length_cons, Function.iterate_succ_apply']
      exact .nullable ((symbol_eq_some_iff rfl).mp hm) (ih rfl)

theorem prefixType_sound : Sound .nullable (prefixType type) := by
  intro cs t rest h hr
  obtain ⟨⟨t₀, r⟩, hp, h⟩ := bind_eq_ok_iff.mp h
  simp only [pure, Except.pure, Except.ok.injEq] at h
  obtain ⟨rfl, rfl⟩ := Prod.mk.inj h
  exact prefixes_sound rfl (.ofSuffixed (postfixType_sound ht _ _ _ hp hr))

theorem intersectionType_sound : Sound .intersection (intersectionType type) := by
  intro cs t rest h hr
  obtain ⟨⟨t₀, r⟩, hp, h⟩ := bind_eq_ok_iff.mp h
  simp only [pure, Except.pure, Except.ok.injEq] at h
  obtain ⟨rfl, rfl⟩ := Prod.mk.inj h
  exact .intersection (maybe_symbol rfl) (list_sound (symbol_delimits (by decide))
    (prefixType_sound ht) (prefixType_sound ht _ _ _ hp) rfl hr)

theorem unionType_sound : Sound .union (unionType type) := by
  intro cs t rest h hr
  obtain ⟨⟨t₀, r⟩, hp, h⟩ := bind_eq_ok_iff.mp h
  simp only [pure, Except.pure, Except.ok.injEq] at h
  obtain ⟨rfl, rfl⟩ := Prod.mk.inj h
  exact .union (maybe_symbol rfl) (list_sound (symbol_delimits (by decide))
    (intersectionType_sound ht) (intersectionType_sound ht _ _ _ hp) rfl hr)

theorem functionType_sound : Sound .function (functionType type) := by
  intro cs t rest h hr
  obtain ⟨⟨_, r₁⟩, ho, h⟩ := bind_eq_ok_iff.mp h
  obtain ⟨⟨_, r₂⟩, hc, h⟩ := bind_eq_ok_iff.mp h
  obtain ⟨⟨_, r₃⟩, ha, h⟩ := bind_eq_ok_iff.mp h
  obtain ⟨⟨t₀, r₄⟩, hv, h⟩ := bind_eq_ok_iff.mp h
  simp only [pure, Except.pure, Except.ok.injEq] at h
  obtain ⟨rfl, rfl⟩ := Prod.mk.inj h
  have hclose := require_symbol rfl hc
  have hn := hclose.ahead_ne_dollar rfl (by decide)
  exact .function (require_symbol rfl ho)
    (elements_sound_optional (symbol_delimits (by decide)) (param_sound ht) rfl hn) hclose
    (arrow_eq_some_iff.mp (require_eq_ok_iff.mp ha)) (ht _ _ _ hv hr)

theorem typeLevel_sound : Sound .type (typeLevel type) := by
  intro cs t rest h hr
  obtain hf | ⟨-, hu⟩ := typeLevel_eq_ok_iff.mp h
  · exact .ofFunction (functionType_sound ht _ _ _ hf hr)
  · exact .ofUnion (unionType_sound ht _ _ _ hu hr)

end Rules

theorem parseUpTo_sound (depth : Nat) : Sound .type (parseUpTo depth) := by
  induction depth with
  | zero => intro cs t rest h; simp [parseUpTo] at h
  | succ depth ih => exact typeLevel_sound ih

end TypeGuard.Grammar
