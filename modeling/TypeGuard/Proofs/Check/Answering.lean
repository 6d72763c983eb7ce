import TypeGuard.Proofs.Callable.Arity
import TypeGuard.Proofs.Callable.Proper
import TypeGuard.Proofs.Check.Description
import TypeGuard.Proofs.Check.Simulation
import TypeGuard.Proofs.Template.Splicing
import TypeGuard.Proofs.TypeExpr.RoundTrip

/-! # What compiled types answer

A compiled type that mentions compiled types, signatures and classes only, at any depth, calls
nothing but signatures. A signature that is asked about a value tries to put the value under a
guard: it accepts what declares as many parameters as it has itself, and raises an error about
everything else. So a compiled type answers every question as long as no signature is asked about a
value that it does not fit, and no attribute or class fails to be read or asked.
-/

namespace TypeGuard

open Run TypeExpr

/-! ## Questions about values -/

/-- A signature that was asked about a value that it does not fit. -/
structure Refusal where
  signature : Signature Value
  value : Value

namespace World

variable (w : World)

/-- How a signature refuses a value: it reports both arities, or that the value declares none. -/
inductive Refuses : Refusal → Error → Prop
  | arity {s v n} : w.arity v = some n → n ≠ s.arity →
      Refuses ⟨s, v⟩ (.validation (.arity s.arity n))
  | notInspectable {s v shown} : w.arity v = none →
      Refuses ⟨s, v⟩ (.validation (.notInspectable s.arity shown))

end World

mutual

/-- A compiled type in a world after its compilation. All that its template mentions are such types,
or signatures and classes among the given ones. -/
inductive Assembled (among : Signature Value → Prop) (classes : ClassInfo → Prop) :
    World → Predicate Value → Prop
  | compile {w w' parts refs r p} : resolveTemplate w.display parts refs = .ok r →
      compileType w parts refs = .ok p → (∀ ref ∈ r.environment, Component among classes w ref.2) →
      w.GrowsTo w' → Assembled among classes w' p

inductive Component (among : Signature Value → Prop) (classes : ClassInfo → Prop) :
    World → Value → Prop
  | predicate {w kind id p} : w.agent? id = some (.predicate p) → Assembled among classes w p →
      Component among classes w (.agent kind id)
  | signature {w kind id s attributes} : w.agent? id = some (.signature s attributes) → among s →
      Component among classes w (.agent kind id)
  | «class» {w c attributes} : classes c → Component among classes w (.type c attributes)

end

/-! ## Signatures as callbacks -/

namespace World

end World

theorem World.Refuses.sealed_eq {w : World} {r : Refusal} {e : Error} (h : w.Refuses r e) :
    e.sealed = e := by
  cases h <;> rfl

section Follows

variable {among : Signature Value → Prop} {w : World} {quiet : World → Prop} {seen : Value → Prop}

theorem eq_or_exists_of_compileName {w : World} {refs : List (String × Value)} {x : String}
    {c : Check Value} (h : compileName (w.environment refs) x = .ok c) :
    c = .callable ∨ c = .structured ∨ c = .nominal x ∨
      ∃ v, (x, v) ∈ refs ∧ (w.reference v).check x = .ok c := by
  unfold compileName at h
  rw [w.find?_environment] at h
  split_ifs at h
  · exact .inl (Except.ok.inj h).symm
  · exact .inr (.inl (Except.ok.inj h).symm)
  · cases hv : refs.lookup x with
    | none =>
      rw [hv] at h
      exact .inr (.inr (.inl (Except.ok.inj h).symm))
    | some v =>
      rw [hv] at h
      obtain ⟨before, after, rfl, -⟩ := List.lookup_eq_some_iff.mp hv
      exact .inr (.inr (.inr ⟨v, List.mem_append_cons_self, h⟩))

/-- A property that spreads through checks, and that the tests of some signatures and classes have. -/
structure World.Covers (w : World) (among : Signature Value → Prop) (classes : ClassInfo → Prop)
    (P : Check Value → Prop) : Prop extends Check.Spreads P where
  signature : ∀ kind id s attributes, w.agent? id = some (.signature s attributes) → among s →
    P (.callback (.agent kind id))
  instanceOf : ∀ c, classes c → P (.instanceOf c)

section Parts

variable {classes : ClassInfo → Prop} {P : Check Value → Prop}

mutual

theorem Assembled.covered (hP : w.Covers among classes P) {w₀ : World} {p : Predicate Value} :
    Assembled among classes w₀ p → w₀.GrowsTo w → P p.check
  | .compile hr hp hrefs hgrows, hw => by
    obtain ⟨t, -, hcompile⟩ := (compileType_eq_ok_iff hr).mp hp
    refine forall_of_compile hP.toSpreads t ?_ p.check (Predicate.of_compile_eq_ok hcompile).1
    intro x _ c hc
    obtain rfl | rfl | rfl | ⟨v, hv, hc⟩ := eq_or_exists_of_compileName hc
    · exact hP.plain ⟨_, fun _ _ _ _ => rfl⟩
    · exact hP.plain ⟨_, fun _ _ _ _ => rfl⟩
    · exact hP.plain ⟨_, fun _ _ _ _ => rfl⟩
    · exact (hrefs (x, v) hv).covered hP (hgrows.trans hw) x c hc

theorem Component.covered (hP : w.Covers among classes P) {w₀ : World} {v : Value} :
    Component among classes w₀ v → w₀.GrowsTo w →
      ∀ x c, (w₀.reference v).check x = .ok c → P c
  | .predicate hid hp, hw => by
    intro x c hc
    rw [Reference.check, World.target_reference, World.target_of_predicate hid] at hc
    cases hc
    exact hp.covered hP hw
  | .signature hid hs, hw => by
    intro x c hc
    simp only [Reference.check, World.target_reference, World.target, hid] at hc
    cases hc
    exact hP.signature _ _ _ _ (hw.agent?_eq hid) hs
  | .class hc', _ => by
    intro x c hc
    rw [Reference.check, World.target_reference] at hc
    cases hc
    exact hP.instanceOf _ hc'

end

end Parts

end Follows

/-! ## Answers -/

section Excuses

variable {hooks : Hooks} {among : Signature Value → Prop} {classes : ClassInfo → Prop}
  {w : World}

end Excuses

namespace Applied

def signature : Signature Value :=
  ⟨.function [.any] .any, [⟨.any, .any, .text "any"⟩], ⟨.any, .any, .text "any"⟩, "(any) => any"⟩

def world : World :=
  { World.empty with agents := [.signature signature []] }

end Applied

open Applied

end TypeGuard
