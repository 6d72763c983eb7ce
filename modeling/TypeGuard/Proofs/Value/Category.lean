import TypeGuard.Proofs.Check.Delegation
import TypeGuard.Proofs.Check.Meaning
import TypeGuard.Proofs.Grammar.Recognition

/-! # The categories of values

Types sort values by seven tests: a value is a text, a real number or a truth value, it is absent in
one of two ways, it can be called, or it is structured. The structured values are what the other six
leave, but without the numbers that are not real, such as decimals and complex numbers: these are in
no category, so that not even the nominal type of their class accepts them.
-/

namespace TypeGuard

namespace Value

/-- A number that is not real: a decimal or a complex number, or an instance of a class derived from
theirs. No class is derived from that of truth values; what an instance of one would hold counts as
a number here, too. -/
def isUnreal (v : Value) : Bool :=
  match v.core with
  | decimal .. => true
  | complex .. => true
  | bool _ => !v.isBoolean
  | _ => false

/-- A value of no other category than that of the structured values. -/
@[mk_iff]
structure IsRemaining (v : Value) : Prop where
  isString : v.isString = false
  isNumber : v.isNumber = false
  isBoolean : v.isBoolean = false
  isNull : v.isNull = false
  isVoid : v.isVoid = false
  isCallable : v.isCallable = false

variable {v : Value}

theorem isBoolean_of_core (h : v.core.isBoolean = false) : v.isBoolean = false := by
  cases v with
  | bool => cases h
  | _ => rfl

theorem isNumeric_eq (v : Value) : v.isNumeric = (v.isNumber || v.isBoolean || v.isUnreal) := by
  unfold isNumeric isNumber magnitude? isUnreal
  cases hv : v.core with
  | bool => simp
  | int | float | fraction | decimal | complex => simp
  | _ =>
    have hboolean : v.isBoolean = false := isBoolean_of_core (by rw [hv]; rfl)
    rw [hboolean]
    rfl

theorem isObject_iff (v : Value) : v.isObject = true ↔ v.IsRemaining ∧ v.isUnreal = false := by
  rw [isObject, isNullish, isNumeric_eq]
  simp only [Bool.and_eq_true, Bool.not_eq_true', Bool.or_eq_false_iff]
  constructor
  · rintro ⟨⟨⟨⟨hnull, hvoid⟩, hstring⟩, ⟨hnumber, hboolean⟩, hunreal⟩, hcallable⟩
    exact ⟨⟨hstring, hnumber, hboolean, hnull, hvoid, hcallable⟩, hunreal⟩
  · rintro ⟨⟨hstring, hnumber, hboolean, hnull, hvoid, hcallable⟩, hunreal⟩
    exact ⟨⟨⟨⟨hnull, hvoid⟩, hstring⟩, ⟨hnumber, hboolean⟩, hunreal⟩, hcallable⟩

theorem IsRemaining.isObject_iff (h : v.IsRemaining) : v.isObject = true ↔ v.isUnreal = false := by
  rw [Value.isObject_iff, and_iff_right h]

end Value

namespace TypeExpr

open Value

def anyCategory : TypeExpr :=
  union [primitive .string, primitive .number, primitive .boolean, null, void, named "Function",
    named "Object"]

section

variable {items : ℕ → List Value} {holds : String → Value → Prop} {v : Value}

theorem admits_anyCategory_iff :
    anyCategory.Admits items holds v ↔ v.isString = true ∨ v.isNumber = true ∨ v.isBoolean = true ∨
      v.isNull = true ∨ v.isVoid = true ∨ holds "Function" v ∨ holds "Object" v := by
  have hstring : (primitive .string).Admits items holds v ↔ v.isString = true :=
    ⟨fun | .string h => h, .string⟩
  have hnumber : (primitive .number).Admits items holds v ↔ v.isNumber = true :=
    ⟨fun | .number h => h, .number⟩
  have hboolean : (primitive .boolean).Admits items holds v ↔ v.isBoolean = true :=
    ⟨fun | .boolean h => h, .boolean⟩
  simp only [anyCategory, admits_union_iff, List.exists_mem_cons_iff, List.not_mem_nil, false_and,
    exists_false, or_false, hstring, hnumber, hboolean, admits_null_iff, admits_void_iff,
    admits_named_iff]

/-- The union of all categories admits all but the numbers that are not real and in no other
category. -/
theorem admits_anyCategory_iff_not :
    anyCategory.Admits items (fun x v => v.isOfName x = true) v ↔
      ¬ (v.IsRemaining ∧ v.isUnreal = true) := by
  have hfunction : v.isOfName "Function" = v.isCallable := rfl
  have hobject : v.isOfName "Object" = v.isObject := rfl
  rw [admits_anyCategory_iff, hfunction, hobject, Value.isObject_iff]
  by_cases h : v.IsRemaining
  · simp [h, h.isString, h.isNumber, h.isBoolean, h.isNull, h.isVoid, h.isCallable]
  · have hcategory := h
    rw [isRemaining_iff] at hcategory
    simp only [h, false_and, not_false_eq_true, iff_true, or_false]
    by_contra hnone
    simp only [not_or, Bool.not_eq_true] at hnone
    exact hcategory hnone

/-- The nominal type of its class admits a value of no other category if that is structured, but for
the name that is fixed for the callables. -/
theorem admits_className_iff (h : v.IsRemaining) :
    (named v.className).Admits items (fun x v => v.isOfName x = true) v ↔
      v.isObject = true ∧ v.className ≠ "Function" := by
  rw [admits_named_iff, isOfName]
  split_ifs with hfunction hobject
  · simp [h.isCallable, hfunction]
  · simp [hobject]
  · simp [isNamed, hfunction]

end

end TypeExpr

theorem Predicate.exists_compile_named {ρ : Type} {env : Environment ρ} {name : String}
    (h : env.find? name = none) :
    ∃ p, Predicate.compile env (.named name) = .ok p ∧
      Predicate.compile [] (.named name) = .ok p := by
  obtain ⟨c, hc⟩ : ∃ c, TypeExpr.compileName ([] : Environment ρ) name = .ok c := by
    unfold TypeExpr.compileName
    split_ifs <;> exact ⟨_, rfl⟩
  have hd : env.describe (.named name) = .ok (.text name) := by
    rw [TypeExpr.describe_named, h, Option.elim_none]
  exact ⟨_, compile_eq_ok ((TypeExpr.compileName_of_find?_eq_none h).trans hc) hd,
    compile_eq_ok hc rfl⟩

open TypeExpr

/-- The structured values are those of no other category, without the numbers that are not real. So
the union of all categories accepts every value but the numbers that are not real and in no other
category, and the nominal type of its class accepts a value of no other category exactly if it is no
such number, unless the class has the name that is fixed for the callables. -/
theorem Value.categories_cover (v : Value) :
    (v.isObject = true ↔ v.IsRemaining ∧ v.isUnreal = false) ∧
    (∃ t p, TypeExpr.parse "string | number | bool | null | void | Function | Object" = .ok t ∧
      Predicate.compile ([] : Environment Value) t = .ok p ∧
      ∀ call w, ∃ b, (p.check.test call v).execute w = (.ok b, w) ∧
        (b = true ↔ ¬ (v.IsRemaining ∧ v.isUnreal = true))) ∧
    (v.IsRemaining → ∀ env : Environment Value, env.find? v.className = .none →
      ∃ p, Predicate.compile env (.named v.className) = .ok p ∧
        ∀ call w, ∃ b, (p.check.test call v).execute w = (.ok b, w) ∧
          (b = true ↔ v.isUnreal = false ∧ v.className ≠ "Function")) := by
  refine ⟨isObject_iff v, ?_, fun h env henv => ?_⟩
  · have hp : Predicate.compile ([] : Environment Value) anyCategory = .ok ⟨anyCategory, _, _⟩ := rfl
    refine ⟨anyCategory, _, parse_eq_ok_iff_parseText.mpr (by cbv), hp, fun call w => ?_⟩
    obtain ⟨b, hrun, hb⟩ := Predicate.execute_test_of_compile_nil hp call w v
    exact ⟨b, hrun, hb.trans admits_anyCategory_iff_not⟩
  · obtain ⟨p, hp, hnil⟩ := Predicate.exists_compile_named henv
    refine ⟨p, hp, fun call w => ?_⟩
    obtain ⟨b, hrun, hb⟩ := Predicate.execute_test_of_compile_nil hnil call w v
    rw [admits_className_iff h, h.isObject_iff] at hb
    exact ⟨b, hrun, hb⟩

/-- A decimal number is in no category, and the nominal type of its class does not accept it. -/
theorem Value.categories_cover_decimal :
    let v : Value := .decimal "1" (.ofInt 1)
    v.IsRemaining ∧ v.isObject = false ∧
      (∃ t p, TypeExpr.parse "string | number | bool | null | void | Function | Object" = .ok t ∧
        Predicate.compile ([] : Environment Value) t = .ok p ∧
        ∀ call w, (p.check.test call v).execute w = (.ok false, w)) ∧
      ∃ p, Predicate.compile ([] : Environment Value) (.named "Decimal") = .ok p ∧
        ∀ call w, (p.check.test call v).execute w = (.ok false, w) := by
  intro v
  have hremaining : v.IsRemaining := ⟨rfl, rfl, rfl, rfl, rfl, rfl⟩
  have hunreal : v.isUnreal = true := rfl
  obtain ⟨hobject, ⟨t, p, ht, hp, htest⟩, hnominal⟩ := categories_cover v
  obtain ⟨q, hq, hqtest⟩ := hnominal hremaining [] rfl
  refine ⟨hremaining, ?_, ⟨t, p, ht, hp, fun call w => ?_⟩, q, hq, fun call w => ?_⟩
  · rw [← Bool.not_eq_true, hobject, hunreal]
    simp
  · obtain ⟨b, hrun, hb⟩ := htest call w
    rw [hrun, Bool.eq_false_iff.mpr fun h => hb.mp h ⟨hremaining, hunreal⟩]
  · obtain ⟨b, hrun, hb⟩ := hqtest call w
    rw [hrun, Bool.eq_false_iff.mpr fun h => Bool.noConfusion (hunreal.symm.trans (hb.mp h).1)]

end TypeGuard
