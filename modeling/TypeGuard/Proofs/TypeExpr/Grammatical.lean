import TypeGuard.TypeExpr.Tree
import TypeGuard.Proofs.Grammar.Phrase
import TypeGuard.Proofs.Number.Writing

/-! # Grammatical trees

The trees that phrases denote: unions and intersections have two members at least, names are words
or placeholders, and floating-point literals are canonical.
-/

namespace TypeGuard

/-- Whether a literal can be the value of a number or of a text. -/
def Literal.IsCanonical : Literal → Prop
  | float x => x.IsCanonical
  | _ => True

theorem Numeral.isCanonical_literal (n : Numeral) : n.literal.IsCanonical := by
  unfold Numeral.literal
  split
  · trivial
  · exact Decimal.isCanonical_toBinary64 n.negative n.decimal

namespace TypeExpr

open Grammar

/-- A word that is no keyword, or a placeholder. -/
def IsName (name : String) : Prop :=
  IsPlaceholder name.toList ∨ IsWord name.toList ∧ ¬ ∃ t, Keyword name t

inductive Grammatical : TypeExpr → Prop
  | literal {v} : v.IsCanonical → Grammatical (literal v)
  | keyword {name t} : Keyword name t → Grammatical t
  | named {name} : IsName name → Grammatical (named name)
  | nullable {t} : Grammatical t → Grammatical (nullable t)
  | array {t} : Grammatical t → Grammatical (array t)
  | tuple {ts} : (∀ t ∈ ts, Grammatical t) → Grammatical (tuple ts)
  | object {ps} : (∀ p ∈ ps, Grammatical p.value) → Grammatical (object ps)
  | union {ts} : 2 ≤ ts.length → (∀ t ∈ ts, Grammatical t) → Grammatical (union ts)
  | intersection {ts} : 2 ≤ ts.length → (∀ t ∈ ts, Grammatical t) →
      Grammatical (intersection ts)
  | function {ps t} : (∀ p ∈ ps, Grammatical p) → Grammatical t → Grammatical (function ps t)

theorem Grammatical.foldMembers {node : List TypeExpr → TypeExpr} {ts : List TypeExpr}
    (hnode : 2 ≤ ts.length → (∀ t ∈ ts, Grammatical t) → Grammatical (node ts)) (hne : ts ≠ [])
    (hts : ∀ t ∈ ts, Grammatical t) : Grammatical (foldMembers node ts) := by
  cases ts with
  | nil => exact absurd rfl hne
  | cons t ts =>
    cases ts with
    | nil => exact hts t List.mem_cons_self
    | cons u us => exact hnode (by simp) hts

end TypeExpr

namespace Grammar

open TypeExpr

def Symbol.Denotes : (s : Symbol) → s.Value → Prop
  | property, p => Grammatical p.value
  | list _ item, vs => vs ≠ [] ∧ ∀ v ∈ vs, item.Denotes v
  | optional _ item, vs => ∀ v ∈ vs, item.Denotes v
  | type, t => Grammatical t
  | function, t => Grammatical t
  | param, t => Grammatical t
  | union, t => Grammatical t
  | intersection, t => Grammatical t
  | nullable, t => Grammatical t
  | suffixed, t => Grammatical t
  | primary, t => Grammatical t

theorem Phrase.denotes {s : Symbol} {cs v rest} (h : Phrase s cs v rest) : s.Denotes v := by
  induction h with
  | ofFunction _ ih | ofUnion _ ih | ofSuffixed _ ih | param _ _ ih | group _ _ _ ih => exact ih
  | property _ _ _ _ ih => exact ih
  | function _ _ _ _ _ ihps iht => exact .function ihps iht
  | union _ _ ih => exact .foldMembers .union ih.1 ih.2
  | intersection _ _ ih => exact .foldMembers .intersection ih.1 ih.2
  | nullable _ _ ih => exact .nullable ih
  | @suffixed n _ _ t _ _ _ ih =>
    have harray (n : ℕ) : Grammatical (TypeExpr.array^[n] t) := by
      induction n with
      | zero => exact ih
      | succ n ihn =>
        rw [Function.iterate_succ_apply']
        exact .array ihn
    exact harray n
  | keyword _ h => exact .keyword h
  | number h =>
    obtain ⟨n, _, -, rfl, -⟩ := h
    exact .literal n.isCanonical_literal
  | string => exact .literal trivial
  | placeholder h => exact .named (.inl h)
  | name h hk => exact .named (.inr ⟨h.isWord, hk⟩)
  | arrayOf _ _ _ _ ih => exact .array ih
  | tuple _ _ _ ih => exact .tuple ih
  | emptyObject => exact .object (by simp)
  | object _ _ _ _ ih => exact .object ih.2
  | single _ ih => exact ⟨by simp, by simpa using ih⟩
  | cons _ _ _ ih₁ ih₂ => exact ⟨by simp, List.forall_mem_cons.mpr ⟨ih₁, ih₂.2⟩⟩
  | absent => exact fun _ h => absurd h List.not_mem_nil
  | present _ ih => exact ih.2

end Grammar

end TypeGuard
