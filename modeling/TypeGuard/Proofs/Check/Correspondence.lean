import TypeGuard.Proofs.Check.Meaning

/-! # Corresponding values

A check looks only at what its type declares. Values correspond that cannot be told apart by reading
the declared keys and the items of arrays: the order of keys, other keys, the kind of a mapping and
the choice between lists and tuples do not matter, at any depth. The declared keys are no attributes
of lists and tuples, which would tell the two apart.
-/

namespace TypeGuard

namespace Value

inductive IsContainer : Value → Prop
  | list (id) : IsContainer (list id)
  | tuple (vs) : IsContainer (tuple vs)
  | dict (ordered entries) : IsContainer (dict ordered entries)

inductive HasItems (items : Nat → List Value) : Value → List Value → Prop
  | list (id) : HasItems items (list id) (items id)
  | tuple (vs) : HasItems items (tuple vs) vs

variable (items : Nat → List Value) (keys : String → Prop) (R : Value → Value → Prop)

/-- One look at two values: either they are the same, or they are arrays with related items, or
mappings with related readings under the declared keys. -/
inductive Looks : Value → Value → Prop
  | same (v) : Looks v v
  | array {v v' vs vs'} : HasItems items v vs → HasItems items v' vs' → List.Forall₂ R vs vs' →
      Looks v v'
  | mapping {o o' es es'} :
      (∀ key, keys key → R ((dict o es).readProperty key) ((dict o' es').readProperty key)) →
      Looks (dict o es) (dict o' es')

/-- Values that cannot be told apart by looking any number of times. -/
def Corresponds (v v' : Value) : Prop :=
  ∃ R : Value → Value → Prop, (∀ a b, R a b → Looks items keys R a b) ∧ R v v'

variable {items keys R} {S : Value → Value → Prop} {v v' : Value}

theorem HasItems.isContainer {vs : List Value} (h : HasItems items v vs) : v.IsContainer := by
  cases h with
  | list id => exact .list id
  | tuple vs => exact .tuple vs

theorem HasItems.itemsIn_eq {vs : List Value} (h : HasItems items v vs) :
    v.itemsIn items = some vs := by
  cases h <;> rfl

/-- Neither lists nor tuples have an attribute of this name. -/
def IsNoAttribute (key : String) : Prop :=
  builtinAttribute? .list key = Option.none ∧ builtinAttribute? .tuple key = Option.none

instance (key : String) : Decidable (IsNoAttribute key) :=
  inferInstanceAs (Decidable (_ ∧ _))

theorem HasItems.readProperty_eq {vs : List Value} (h : HasItems items v vs) {key : String}
    (hkey : IsNoAttribute key) : v.readProperty key = undefined := by
  cases h with
  | list id => exact congrArg (Option.getD · undefined) hkey.1
  | tuple vs => exact congrArg (Option.getD · undefined) hkey.2

namespace Looks

theorem mono (hRS : ∀ a b, R a b → S a b) (h : Looks items keys R v v') :
    Looks items keys S v v' := by
  cases h with
  | same => exact .same v
  | array hv hv' hvs => exact .array hv hv' (hvs.imp hRS)
  | mapping h => exact .mapping fun key hkey => hRS _ _ (h key hkey)

theorem symm (h : Looks items keys R v v') : Looks items keys (fun a b => R b a) v' v := by
  cases h with
  | same => exact .same v
  | array hv hv' hvs => exact .array hv' hv hvs.flip
  | mapping h => exact .mapping h

end Looks

namespace Corresponds

theorem refl (v : Value) : Corresponds items keys v v :=
  ⟨Eq, fun a _ hab => hab ▸ .same a, rfl⟩

theorem symm (h : Corresponds items keys v v') : Corresponds items keys v' v := by
  obtain ⟨R, hR, hv⟩ := h
  exact ⟨fun a b => R b a, fun a b hab => (hR b a hab).symm, hv⟩

theorem looks (h : Corresponds items keys v v') :
    Looks items keys (Corresponds items keys) v v' := by
  obtain ⟨R, hR, hv⟩ := h
  exact (hR v v' hv).mono fun a b hab => ⟨R, hR, hab⟩

theorem of_looks (h : Looks items keys (Corresponds items keys) v v') :
    Corresponds items keys v v' := by
  refine ⟨fun a b => Looks items keys (Corresponds items keys) a b, fun a b hab => ?_, h⟩
  exact hab.mono fun _ _ => looks

theorem eq_or_isContainer (h : Corresponds items keys v v') :
    v = v' ∨ v.IsContainer ∧ v'.IsContainer := by
  cases h.looks with
  | same => exact .inl rfl
  | array hv hv' => exact .inr ⟨hv.isContainer, hv'.isContainer⟩
  | mapping => exact .inr ⟨.dict _ _, .dict _ _⟩

theorem exists_items (h : Corresponds items keys v v') {vs : List Value}
    (hvs : v.itemsIn items = some vs) :
    ∃ vs', v'.itemsIn items = some vs' ∧ List.Forall₂ (Corresponds items keys) vs vs' := by
  cases h.looks with
  | same => exact ⟨vs, hvs, List.forall₂_same.mpr fun u _ => .refl u⟩
  | array hv hv' hitems =>
    obtain rfl := Option.some.inj (hv.itemsIn_eq.symm.trans hvs)
    exact ⟨_, hv'.itemsIn_eq, hitems⟩
  | mapping => cases hvs

theorem readProperty (h : Corresponds items keys v v') {key : String} (hkey : keys key)
    (hno : IsNoAttribute key) :
    Corresponds items keys (v.readProperty key) (v'.readProperty key) := by
  cases h.looks with
  | same => exact .refl _
  | array hv hv' =>
    rw [hv.readProperty_eq hno, hv'.readProperty_eq hno]
    exact .refl _
  | mapping hread => exact hread key hkey

end Corresponds

/-- A test that all containers answer alike does not tell corresponding values apart. -/
theorem Corresponds.test_of_test (h : Corresponds items keys v v') {test : Value → Bool} (b : Bool)
    (htest : ∀ u : Value, u.IsContainer → test u = b) (hv : test v = true) : test v' = true := by
  rcases h.eq_or_isContainer with rfl | ⟨hcontainer, hcontainer'⟩
  · exact hv
  · rwa [htest v' hcontainer', ← htest v hcontainer]

/-! ### Relations that are kept by looking -/

/-- Values that are told apart by their items and properties only, if at all. -/
structure Resembles (v v' : Value) : Prop where
  accepts : ∀ l : Literal, l.accepts v = l.accepts v'
  isString : v.isString = v'.isString
  isNumber : v.isNumber = v'.isNumber
  isBoolean : v.isBoolean = v'.isBoolean
  isNull : v.isNull = v'.isNull
  isVoid : v.isVoid = v'.isVoid
  isObject : v.isObject = v'.isObject

theorem Resembles.refl (v : Value) : Resembles v v :=
  ⟨fun _ => rfl, rfl, rfl, rfl, rfl, rfl, rfl⟩

theorem Resembles.isNullish (h : Resembles v v') : v.isNullish = v'.isNullish := by
  rw [Value.isNullish, Value.isNullish, h.isNull, h.isVoid]

theorem IsContainer.resembles (h : v.IsContainer) (h' : v'.IsContainer) : Resembles v v' := by
  have haccepts {u : Value} (hu : u.IsContainer) (l : Literal) : l.accepts u = false := by
    cases hu <;> cases l <;> rfl
  refine ⟨fun l => (haccepts h l).trans (haccepts h' l).symm, ?_, ?_, ?_, ?_, ?_, ?_⟩ <;>
    cases h <;> cases h' <;> rfl

/-- Related values resemble each other, and so do all that is read from them: their items, where the
lists hold what is given for each side, and what is under the keys. -/
structure Tracks (items items' : Nat → List Value) (keys : String → Prop)
    (R : Value → Value → Prop) : Prop where
  resembles : ∀ v v', R v v' → Resembles v v'
  items : ∀ v v', R v v' → ∀ vs, v.itemsIn items = some vs →
    ∃ vs', v'.itemsIn items' = some vs' ∧ List.Forall₂ R vs vs'
  property : ∀ v v', R v v' → ∀ key, keys key → R (v.readProperty key) (v'.readProperty key)

theorem Corresponds.resembles (h : Corresponds items keys v v') : Resembles v v' := by
  rcases h.eq_or_isContainer with rfl | ⟨hcontainer, hcontainer'⟩
  · exact .refl v
  · exact hcontainer.resembles hcontainer'

theorem Tracks.corresponds (hkeys : ∀ key, keys key → IsNoAttribute key) :
    Tracks items items keys (Corresponds items keys) :=
  ⟨fun _ _ h => h.resembles, fun _ _ h _ hvs => h.exists_items hvs,
    fun _ _ h _ hkey => h.readProperty hkey (hkeys _ hkey)⟩

end Value

namespace TypeExpr

def Declares (t : TypeExpr) (key : String) : Prop :=
  ∃ ps, object ps ∈ t.subtrees ∧ ∃ p ∈ ps, Property.key p = key

def HasFixedNames (t : TypeExpr) : Prop :=
  ∀ name, named name ∈ t.subtrees → name = "Function" ∨ name = "Object"

section Admits

open Value

variable {items items' : Nat → List Value} {keys : String → Prop}
  {holds : String → Value → Prop} {R : Value → Value → Prop}

/-- Values that are related by a relation that is kept by looking are admitted alike, where the names
in the type do not tell them apart. -/
theorem admits_of_tracks (hR : Tracks items items' keys R) (t : TypeExpr) :
    (∀ key, t.Declares key → keys key) →
    (∀ x, named x ∈ t.subtrees → ∀ v v', R v v' → holds x v → holds x v') →
    ∀ v v', R v v' → t.Admits items holds v → t.Admits items' holds v' := by
  induction t using children_induction with
  | h t ih =>
    intro hkeys hnames
    have hchild : ∀ u ∈ t.children, ∀ v v', R v v' →
        u.Admits items holds v → u.Admits items' holds v' := by
      intro u hu
      have hsub := subtrees_subset_of_mem_children hu
      refine ih u hu (fun key hkey => ?_) fun x hx => hnames x (hsub hx)
      obtain ⟨ps, hps, hp⟩ := hkey
      exact hkeys key ⟨ps, hsub hps, hp⟩
    intro v v' h hadmits
    have hsame := hR.resembles v v' h
    cases hadmits with
    | @literal l _ hv => exact .literal ((hsame.accepts l).symm.trans hv)
    | string hv => exact .string (hsame.isString.symm.trans hv)
    | number hv => exact .number (hsame.isNumber.symm.trans hv)
    | boolean hv => exact .boolean (hsame.isBoolean.symm.trans hv)
    | null hv => exact .null (hsame.isNull.symm.trans hv)
    | void hv => exact .void (hsame.isVoid.symm.trans hv)
    | any => exact .any
    | nullish hv => exact .nullish (hsame.isNullish.symm.trans hv)
    | nullable ht => exact .nullable (hchild _ List.mem_cons_self v v' h ht)
    | array hvs ht =>
      obtain ⟨vs', hvs', hrelated⟩ := hR.items v v' h _ hvs
      refine .array hvs' fun u' hu' => ?_
      obtain ⟨i, hi, rfl⟩ := List.mem_iff_getElem.mp hu'
      have hlt := hrelated.length_eq ▸ hi
      exact hchild _ List.mem_cons_self _ _ (hrelated.get hlt hi) (ht _ (List.getElem_mem hlt))
    | @tuple ts _ vs hvs hts =>
      obtain ⟨vs', hvs', hrelated⟩ := hR.items v v' h _ hvs
      refine .tuple hvs' (List.forall₂_iff_get.mpr ⟨hts.length_eq.trans hrelated.length_eq, ?_⟩)
      intro i hi hi'
      have hlt := hrelated.length_eq ▸ hi'
      exact hchild _ (List.getElem_mem hi) _ _ (hrelated.get hlt hi') (hts.get hi hlt)
    | @object ps _ hobject hps =>
      refine .object (hsame.isObject.symm.trans hobject) fun p hp => ?_
      have hdeclared := hkeys p.key ⟨ps, mem_subtrees_self _, p, hp, rfl⟩
      exact hchild p.value (List.mem_map_of_mem hp) _ _ (hR.property v v' h p.key hdeclared)
        (hps p hp)
    | union ht hv => exact .union ht (hchild _ ht v v' h hv)
    | intersection hts => exact .intersection fun u hu => hchild u hu v v' h (hts u hu)
    | named hv => exact .named (hnames _ (mem_subtrees_self _) v v' h hv)

theorem admits_of_corresponds (t : TypeExpr) (hkeys : ∀ key, t.Declares key → keys key)
    (hno : ∀ key, keys key → IsNoAttribute key) :
    (∀ x, named x ∈ t.subtrees → ∀ v v', Corresponds items keys v v' → holds x v → holds x v') →
    ∀ v v', Corresponds items keys v v' → t.Admits items holds v → t.Admits items holds v' :=
  admits_of_tracks (.corresponds hno) t hkeys

end Admits

end TypeExpr

def Value.isOfFixed (name : String) (v : Value) : Bool :=
  if name = "Function" then v.isCallable else v.isObject

/-- A compiled type whose only names are the fixed ones and whose keys are no attributes of lists and
tuples gives corresponding values the same answer and leaves the world as it is. -/
theorem Predicate.test_of_corresponds {env : Environment Value} {t : TypeExpr} {p : Predicate Value}
    (hp : Predicate.compile env t = .ok p) (hnames : t.HasFixedNames)
    (hkeys : ∀ key, t.Declares key → Value.IsNoAttribute key) (call : Caller) {w : World}
    {v v' : Value} (h : Value.Corresponds w.items t.Declares v v') :
    ∃ b, (p.check.test call v).execute w = (.ok b, w) ∧
      (p.check.test call v').execute w = (.ok b, w) := by
  let holds (name : String) (v : Value) : Prop := v.isOfFixed name = true
  have hanswers : p.check.Answers (· = w) (fun _ => True) call (t.Admits w.items holds) := by
    refine TypeExpr.answers_compile w.calm_alone t (fun x hx c hc => ?_) _ (of_compile_eq_ok hp).1
    rcases hnames x hx with rfl | rfl
    · cases hc
      exact fun v _ => .pure v.isCallable
    · cases hc
      exact fun v _ => .pure v.isObject
  have hadmits {v v' : Value} (h : Value.Corresponds w.items t.Declares v v') :
      t.Admits w.items holds v → t.Admits w.items holds v' := by
    refine TypeExpr.admits_of_corresponds t (fun _ h => h) hkeys (fun x hx u u' hu => ?_) v v' h
    rcases hnames x hx with rfl | rfl
    · exact hu.test_of_test false fun a ha => by cases ha <;> rfl
    · exact hu.test_of_test true fun a ha => by cases ha <;> rfl
  obtain ⟨b, hb, hbv⟩ := hanswers v trivial
  obtain ⟨b', hb', hbv'⟩ := hanswers v' trivial
  obtain rfl : b = b' := Bool.eq_iff_iff.mpr
    (hbv.trans (Iff.trans ⟨hadmits h, hadmits h.symm⟩ hbv'.symm))
  obtain ⟨_, rfl, hrun⟩ := hb w rfl
  obtain ⟨_, rfl, hrun'⟩ := hb' _ rfl
  exact ⟨b, hrun, hrun'⟩

/-- A dictionary with a list, in a field, and the ordered one with the tuple of the same items: the
order of the keys, an undeclared key and an undefined value under a missing key do not matter. -/
theorem Predicate.test_of_corresponds_mapping :
    let t : TypeExpr :=
      .object [⟨"a", false, .array (.primitive .number)⟩, ⟨"b", false, .nullable (.named "Object")⟩]
    let w : World := ⟨[[.int 1, .int 2]], [], 0, 0, []⟩
    let v : Value := .dict false [(.str "c", .int 3), (.str "a", .list 0)]
    let v' : Value := .dict true [(.str "a", .tuple [.int 1, .int 2]), (.str "b", .undefined)]
    t.HasFixedNames ∧ (∀ key, t.Declares key → Value.IsNoAttribute key) ∧
      Value.Corresponds w.items t.Declares v v' ∧
      ∃ (p : Predicate Value) (b : Bool), Predicate.compile [] t = .ok p ∧
        (p.check.test Value.call v).execute w = (.ok b, w) ∧
        (p.check.test Value.call v').execute w = (.ok b, w) := by
  intro t w v v'
  have hnames : t.HasFixedNames := by
    simp [t, TypeExpr.HasFixedNames, TypeExpr.subtrees, TypeExpr.subtrees.ofProperties]
  have hdeclares (key : String) (hkey : t.Declares key) : key = "a" ∨ key = "b" := by
    simpa [t, TypeExpr.Declares, TypeExpr.subtrees, TypeExpr.subtrees.ofProperties, eq_comm]
      using hkey
  have hkeys : ∀ key, t.Declares key → Value.IsNoAttribute key := by
    intro key hkey
    rcases hdeclares key hkey with rfl | rfl <;> decide
  have hcorresponds : Value.Corresponds w.items t.Declares v v' := by
    refine .of_looks (.mapping fun key hkey => ?_)
    rcases hdeclares key hkey with rfl | rfl
    · refine .of_looks (.array (.list 0) (.tuple [.int 1, .int 2]) ?_)
      exact List.forall₂_same.mpr fun u _ => .refl u
    · exact .refl .undefined
  have hp : Predicate.compile ([] : Environment Value) t = .ok ⟨t, _, _⟩ := rfl
  obtain ⟨b, hb⟩ := test_of_corresponds hp hnames hkeys Value.call hcorresponds
  exact ⟨hnames, hkeys, hcorresponds, _, b, hp, hb⟩

end TypeGuard
