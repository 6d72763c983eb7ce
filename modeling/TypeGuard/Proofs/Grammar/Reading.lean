import TypeGuard.Proofs.Except
import TypeGuard.Proofs.Grammar.Phrase

/-! # Readers

What it means for the combinators to succeed. A text that opens with a parenthesis is read as a
function type if it can be, and otherwise like every other text; `typeLevel` shares the type after
the parenthesis between both.
-/

namespace TypeGuard.Grammar

open Text TypeExpr

variable {α β : Type}

theorem require_eq_ok_iff {p : Attempt α} {e : Expectation} {cs : List Char}
    {r : α × List Char} : require p e cs = .ok r ↔ p cs = some r := by
  unfold require
  split <;> simp_all

theorem optional_of_none {p : Attempt α} {cs : List Char} (h : p cs = none) :
    Grammar.optional p cs = cs := by
  simp [Grammar.optional, h]

theorem optional_of_some {p : Attempt α} {cs rest : List Char} {a : α}
    (h : p cs = some (a, rest)) : Grammar.optional p cs = rest := by
  simp [Grammar.optional, h]

theorem after_eq_some_iff {delimiter : Attempt Unit} {p : Reader α} {cs : List Char}
    {r : α × List Char} :
    after delimiter p cs = some r ↔ ∃ u r', delimiter cs = some (u, r') ∧ p r' = .ok r := by
  unfold after
  rcases delimiter cs with _ | ⟨u, r'⟩
  · simp
  · cases h : p r' <;> simp [Reader.attempt, Except.toOption, h]

theorem repeatAttempt_of_none {p : Attempt α} {cs : List Char} (h : p cs = none) (n : Nat) :
    repeatAttempt p n cs = ([], cs) := by
  cases n <;> simp [repeatAttempt, h]

theorem many_of_none {p : Attempt α} {cs : List Char} (h : p cs = none) : many p cs = ([], cs) :=
  repeatAttempt_of_none h _

theorem symbol_eq_none {c d : Char} {cs : List Char} (h : ahead cs = some d) (hd : d ≠ c) :
    symbol c cs = none := by
  unfold ahead at h
  unfold symbol
  cases hs : skipGaps cs with
  | nil => rfl
  | cons e es =>
    rw [hs] at h
    simp_all

/-! ## Repetition -/

/-- A run of an attempt to its end, every success taking part of the text. -/
inductive Repeats (p : Attempt α) : List Char → List α → List Char → Prop
  | stop {cs} : p cs = none → Repeats p cs [] cs
  | step {cs a r as rest} : p cs = some (a, r) → r.length < cs.length → Repeats p r as rest →
      Repeats p cs (a :: as) rest

theorem Repeats.repeatAttempt_eq {p : Attempt α} {cs rest : List Char} {as : List α}
    (h : Repeats p cs as rest) {n : Nat} (hn : cs.length ≤ n) :
    repeatAttempt p n cs = (as, rest) := by
  induction h generalizing n with
  | stop h => exact repeatAttempt_of_none h n
  | step h hlt _ ih =>
    obtain ⟨n, rfl⟩ : ∃ m, n = m + 1 := ⟨n - 1, by omega⟩
    simp [repeatAttempt, h, ih (show _ ≤ n by omega)]

theorem Repeats.many_eq {p : Attempt α} {cs rest : List Char} {as : List α}
    (h : Repeats p cs as rest) : many p cs = (as, rest) :=
  h.repeatAttempt_eq le_rfl

/-- An attempt whose successes take part of the text is repeated as often as it succeeds. -/
theorem exists_repeats {p : Attempt α}
    (hp : ∀ cs a rest, p cs = some (a, rest) → rest.length < cs.length) (cs : List Char) :
    ∃ as rest, Repeats p cs as rest := by
  induction hk : cs.length using Nat.strong_induction_on generalizing cs with
  | _ k ih =>
    subst hk
    cases h : p cs with
    | none => exact ⟨[], cs, .stop h⟩
    | some ar =>
      obtain ⟨a, r⟩ := ar
      have hlt := hp _ _ _ h
      obtain ⟨as, rest, hrep⟩ := ih _ hlt r rfl
      exact ⟨a :: as, rest, .step h hlt hrep⟩

theorem prefixType_mark {type : Reader TypeExpr} {cs r rest : List Char} {t : TypeExpr}
    (h : Spelled ['?'] cs r) (hr : prefixType type r = .ok (t, rest)) :
    prefixType type cs = .ok (nullable t, rest) := by
  have hlt (cs : List Char) (u : Unit) (rest : List Char) (hs : symbol '?' cs = some (u, rest)) :
      rest.length < cs.length := ((symbol_eq_some_iff rfl).mp hs).length_lt
  obtain ⟨marks, r', hrep⟩ := exists_repeats hlt r
  have hstep : Repeats (symbol '?') cs (() :: marks) r' :=
    .step ((symbol_eq_some_iff rfl).mpr h) h.length_lt hrep
  rw [prefixType, hrep.many_eq] at hr
  obtain ⟨⟨t₀, r₀⟩, ht, hr⟩ := bind_eq_ok_iff.mp hr
  simp only [pure, Except.pure, Except.ok.injEq, List.foldl_const] at hr
  obtain ⟨rfl, rfl⟩ := Prod.mk.inj hr
  rw [prefixType, hstep.many_eq]
  refine bind_eq_ok_iff.mpr ⟨_, ht, ?_⟩
  simp only [List.foldl_const, List.length_cons, Function.iterate_succ_apply']
  rfl

/-! ## Types that open with a parenthesis -/

section Rules

variable (type : Reader TypeExpr)

def functionType : Reader TypeExpr := fun cs => do
  let (_, rest) ← require (symbol '(') .type cs
  let (ts, rest) := elements (symbol ',') (param type) rest
  let (_, rest) ← require (symbol ')') .closeParen rest
  let (_, rest) ← require arrow .arrow rest
  let (result, rest) ← type rest
  return (function ts result, rest)

variable {type}

theorem firstParam_eq (cs : List Char) : firstParam type (type cs) cs = param type cs := by
  unfold firstParam param
  cases h : paramName cs with
  | none => rw [optional_of_none h]
  | some r => rw [optional_of_some h]

theorem params_eq (cs : List Char) :
    params type (type cs) cs = elements (symbol ',') (param type) cs := by
  rw [params, firstParam_eq, elements]
  cases param type cs <;> rfl

theorem functionType_eq {cs rest : List Char} {u : Unit} (h : symbol '(' cs = some (u, rest)) :
    functionType type cs = functionBody type (type rest) rest := by
  simp only [functionType, functionBody, params_eq, require_eq_ok_iff.mpr h]
  rfl

theorem unionType_of_paren {cs rest : List Char} {u : Unit} (h : symbol '(' cs = some (u, rest)) :
    unionType type cs = (do
      let (t, rest) ← closeGroup (type rest)
      let (t, rest) := suffixes t rest
      let (t, rest) := intersectionRest type t rest
      return unionRest type t rest) := by
  have hs := (symbol_eq_some_iff rfl).mp h
  have hn : ahead cs = some '(' := hs.ahead_eq rfl
  rw [spelled_iff rfl, List.nil_append] at hs
  have hprimary : primary type cs = closeGroup (type rest) := by
    simp [primary, hs]
  have hmarks : many (symbol '?') cs = ([], cs) := many_of_none (symbol_eq_none hn (by decide))
  simp only [unionType, intersectionType, prefixType, postfixType, hprimary, hmarks,
    optional_of_none (symbol_eq_none hn (show '(' ≠ '|' by decide)),
    optional_of_none (symbol_eq_none hn (show '(' ≠ '&' by decide))]
  cases closeGroup (type rest) <;> rfl

/-- A type is a function type if it can be read as one, and a union otherwise. -/
theorem typeLevel_eq_ok_iff {cs : List Char} {r : TypeExpr × List Char} :
    typeLevel type cs = .ok r ↔
      functionType type cs = .ok r ∨
        (∀ r', functionType type cs ≠ .ok r') ∧ unionType type cs = .ok r := by
  cases h : symbol '(' cs with
  | none =>
    have hf : ∀ r', functionType type cs ≠ .ok r' := by
      intro r' hr
      obtain ⟨_, hp, -⟩ := bind_eq_ok_iff.mp hr
      rw [require_eq_ok_iff, h] at hp
      exact absurd hp (by simp)
    simp [typeLevel, h, hf]
  | some ur =>
    obtain ⟨u, rest⟩ := ur
    rw [functionType_eq h, unionType_of_paren h]
    simp only [typeLevel, h, parenthesizedType]
    cases functionBody type (type rest) rest with
    | ok r' => simp
    | error f =>
      cases closeGroup (type rest) with
      | ok tr => simp [bind, Except.bind, pure, Except.pure]
      | error g => simp [bind, Except.bind]

end Rules

end TypeGuard.Grammar
