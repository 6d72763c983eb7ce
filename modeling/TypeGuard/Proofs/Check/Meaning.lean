import TypeGuard.Proofs.Check.Compilation
import TypeGuard.Proofs.Check.Decision
import TypeGuard.Proofs.TypeExpr.Subtrees

/-! # The meaning of types

Which values a type admits, said without its check: what its names hold of is given, and so is what
lists hold. Where the checks of its names decide what these hold of, the check of a type decides
which values it admits.
-/

namespace TypeGuard

def Value.itemsIn (items : Nat → List Value) (v : Value) : Option (List Value) :=
  match v.core with
  | .list id => some (items id)
  | .tuple vs => some vs
  | _ => Option.none

namespace TypeExpr

section Admits

variable (items : Nat → List Value) (holds : String → Value → Prop)

/-- A type admits a value. What is no type of values admits none. -/
inductive Admits : TypeExpr → Value → Prop
  | literal {l v} : l.accepts v = true → Admits (literal l) v
  | string {v} : v.isString = true → Admits (primitive .string) v
  | number {v} : v.isNumber = true → Admits (primitive .number) v
  | boolean {v} : v.isBoolean = true → Admits (primitive .boolean) v
  | null {v} : v.isNull = true → Admits null v
  | void {v} : v.isVoid = true → Admits void v
  | any {v} : Admits any v
  | nullish {t v} : v.isNullish = true → Admits (nullable t) v
  | nullable {t v} : Admits t v → Admits (nullable t) v
  | array {t v vs} : v.itemsIn items = some vs → (∀ u ∈ vs, Admits t u) → Admits (array t) v
  | tuple {ts v vs} : v.itemsIn items = some vs → List.Forall₂ Admits ts vs → Admits (tuple ts) v
  | object {ps v} : v.isObject = true →
      (∀ p ∈ ps, Admits (Property.value p) (v.readProperty p.key)) → Admits (object ps) v
  | union {ts t v} : t ∈ ts → Admits t v → Admits (union ts) v
  | intersection {ts v} : (∀ t ∈ ts, Admits t v) → Admits (intersection ts) v
  | named {name v} : holds name v → Admits (named name) v

end Admits

section

variable {items : Nat → List Value} {holds : String → Value → Prop} {v : Value}

theorem admits_literal_iff {l : Literal} :
    (literal l).Admits items holds v ↔ l.accepts v = true :=
  ⟨fun | .literal h => h, .literal⟩

theorem admits_null_iff : null.Admits items holds v ↔ v.isNull = true :=
  ⟨fun | .null h => h, .null⟩

theorem admits_void_iff : void.Admits items holds v ↔ v.isVoid = true :=
  ⟨fun | .void h => h, .void⟩

theorem admits_nullable_iff {t : TypeExpr} :
    (nullable t).Admits items holds v ↔ v.isNullish = true ∨ t.Admits items holds v := by
  constructor
  · intro h
    cases h with
    | nullish h => exact .inl h
    | nullable h => exact .inr h
  · rintro (h | h)
    · exact .nullish h
    · exact .nullable h

theorem admits_array_iff {t : TypeExpr} :
    (array t).Admits items holds v ↔
      ∃ vs, v.itemsIn items = some vs ∧ ∀ u ∈ vs, t.Admits items holds u :=
  ⟨fun | .array h hvs => ⟨_, h, hvs⟩, fun ⟨_, h, hvs⟩ => .array h hvs⟩

theorem admits_tuple_iff {ts : List TypeExpr} :
    (tuple ts).Admits items holds v ↔
      ∃ vs, v.itemsIn items = some vs ∧ List.Forall₂ (Admits items holds) ts vs :=
  ⟨fun | .tuple h hvs => ⟨_, h, hvs⟩, fun ⟨_, h, hvs⟩ => .tuple h hvs⟩

theorem admits_object_iff {ps : List (Property TypeExpr)} :
    (object ps).Admits items holds v ↔
      v.isObject = true ∧ ∀ p ∈ ps, p.value.Admits items holds (v.readProperty p.key) :=
  ⟨fun | .object h hps => ⟨h, hps⟩, fun ⟨h, hps⟩ => .object h hps⟩

theorem admits_union_iff {ts : List TypeExpr} :
    (union ts).Admits items holds v ↔ ∃ t ∈ ts, t.Admits items holds v :=
  ⟨fun | .union ht h => ⟨_, ht, h⟩, fun ⟨_, ht, h⟩ => .union ht h⟩

theorem admits_intersection_iff {ts : List TypeExpr} :
    (intersection ts).Admits items holds v ↔ ∀ t ∈ ts, t.Admits items holds v :=
  ⟨fun | .intersection h => h, .intersection⟩

theorem admits_named_iff {name : String} :
    (named name).Admits items holds v ↔ holds name v :=
  ⟨fun | .named h => h, .named⟩

end

end TypeExpr

/-! ## Decisions of checks -/

open Run

/-- The worlds of a set hold the same in all lists that are seen: the values that are seen, and all
that a check reads from them. -/
structure World.Calm (quiet : World → Prop) (seen : Value → Prop) (items : Nat → List Value) :
    Prop where
  items_eq : ∀ w, quiet w → ∀ v, seen v → ∀ id, v.core = .list id → w.items id = items id
  item : ∀ v, seen v → ∀ vs, v.itemsIn items = some vs → ∀ u ∈ vs, seen u
  property : ∀ v, seen v → ∀ key, seen (v.readProperty key)

section Decides

variable {quiet : World → Prop} {seen : Value → Prop} {items : Nat → List Value}
  {holds : String → Value → Prop} {env : Environment Value} {call : Caller}

theorem World.Calm.settles_lengthOf (h : World.Calm quiet seen items) {v : Value} (hv : seen v) :
    Settles quiet ((Hooks.plain.surroundings call).lengthOf v)
      ((v.itemsIn items).map List.length) := by
  unfold Surroundings.lengthOf Value.itemsIn
  cases hcore : v.core with
  | list id =>
    have hread : Settles quiet (do return ((← Run.world).items id).length) (items id).length :=
      .read fun w hw => congrArg List.length (h.items_eq w hw v hv id hcore)
    exact hread.bind (.pure _)
  | tuple vs => exact .pure _
  | _ => exact .pure _

theorem World.Calm.settles_itemOf (h : World.Calm quiet seen items) {v : Value} (hv : seen v)
    {vs : List Value} (hvs : v.itemsIn items = some vs) (index : ℕ) :
    Settles quiet ((Hooks.plain.surroundings call).itemOf v index) vs[index]? := by
  unfold Value.itemsIn at hvs
  unfold Surroundings.itemOf
  cases hcore : v.core with
  | list id =>
    rw [hcore] at hvs
    obtain rfl := Option.some.inj hvs
    exact .read fun w hw => congrArg (·[index]?) (h.items_eq w hw v hv id hcore)
  | tuple vs =>
    rw [hcore] at hvs
    obtain rfl := Option.some.inj hvs
    exact .pure _
  | _ =>
    rw [hcore] at hvs
    cases hvs

theorem read_plain (call : Caller) (v : Value) (key : String) :
    (Hooks.plain.surroundings call).read v key = pure (v.readProperty key) := by
  unfold Surroundings.read Value.readProperty
  cases v.core <;> rfl

/-- A check decides, about every value that is seen, whether something holds of it. -/
def Check.Answers (quiet : World → Prop) (seen : Value → Prop) (call : Caller) (c : Check Value)
    (P : Value → Prop) : Prop :=
  ∀ v, seen v → Decides quiet (c.test call v) (P v)

namespace TypeExpr

theorem answers_nullable {t : TypeExpr} {c : Check Value}
    (h : c.Answers quiet seen call (t.Admits items holds)) :
    (Check.nullable c).Answers quiet seen call ((nullable t).Admits items holds) := by
  intro v hv
  change Decides quiet (if v.isNullish then return true else c.test call v) _
  rw [admits_nullable_iff]
  cases hnull : v.isNullish with
  | true => exact (Decides.pure true).congr (by simp)
  | false => exact (h v hv).congr (by simp)

theorem answers_array (hcalm : World.Calm quiet seen items) {t : TypeExpr} {c : Check Value}
    (h : c.Answers quiet seen call (t.Admits items holds)) :
    (Check.array c).Answers quiet seen call ((array t).Admits items holds) := by
  intro v hv
  rw [admits_array_iff]
  refine .bind (hcalm.settles_lengthOf hv) ?_
  cases hvs : v.itemsIn items with
  | none => exact (Decides.pure false).congr (by simp)
  | some vs =>
    have hitem : ∀ index, Settles quiet ((Hooks.plain.surroundings call).itemOf v index) vs[index]? :=
      hcalm.settles_itemOf hv hvs
    have hall := Check.decides_allFrom hitem
      (fun u hu => (h u (hcalm.item v hv vs hvs u hu)).sealed) (vs.length + World.capacity + 1) 0
      (by omega)
    exact hall.congr (by simp)

section Parts

variable {ts : List TypeExpr} {cs : List (Check Value)}
  (h : List.Forall₂ (fun t c => c.Answers quiet seen call (t.Admits items holds)) ts cs)

include h

theorem decides_runEach {v : Value} {vs : List Value} (hseen : ∀ u ∈ vs, seen u)
    (hitem : ∀ index, Settles quiet ((Hooks.plain.surroundings call).itemOf v index) vs[index]?)
    (index : ℕ) (hlen : vs.length = index + cs.length) :
    Decides quiet (Check.run.runEach (Hooks.plain.surroundings call) cs v index)
      (List.Forall₂ (Admits items holds) ts (vs.drop index)) := by
  induction h generalizing index with
  | nil =>
    rw [List.length_nil, Nat.add_zero] at hlen
    rw [List.drop_eq_nil_of_le hlen.le]
    exact (Decides.pure true).congr (by simp)
  | @cons t c ts cs hc _ ih =>
    rw [List.length_cons] at hlen
    have hindex : index < vs.length := by omega
    refine .bind (hitem index) ?_
    rw [List.getElem?_eq_getElem hindex, List.drop_eq_getElem_cons hindex]
    have hfirst := (hc _ (hseen _ (List.getElem_mem hindex))).sealed
    exact (hfirst.and (ih (index + 1) (by omega))).congr List.forall₂_cons.symm

theorem answers_tuple (hcalm : World.Calm quiet seen items) :
    (Check.tuple cs).Answers quiet seen call ((tuple ts).Admits items holds) := by
  intro v hv
  rw [admits_tuple_iff]
  refine .bind (hcalm.settles_lengthOf hv) ?_
  cases hvs : v.itemsIn items with
  | none => exact (Decides.pure false).congr (by simp)
  | some vs =>
    by_cases hlen : vs.length = cs.length
    · have heach := decides_runEach h (hcalm.item v hv vs hvs)
        (hcalm.settles_itemOf hv hvs) 0 (by omega)
      simpa [hlen] using heach
    · have hfail : ¬ List.Forall₂ (Admits items holds) ts vs := fun hvs =>
        hlen (hvs.length_eq.symm.trans h.length_eq)
      simpa [hlen, hfail] using (Decides.pure false : Decides quiet _ _)

theorem answers_union :
    (Check.union cs).Answers quiet seen call ((union ts).Admits items holds) := by
  intro v hv
  rw [admits_union_iff]
  induction h with
  | nil => exact (Decides.pure false).congr (by simp)
  | cons hc _ ih => exact ((hc v hv).sealed.or ih).congr (by simp)

theorem answers_intersection :
    (Check.intersection cs).Answers quiet seen call ((intersection ts).Admits items holds) := by
  intro v hv
  rw [admits_intersection_iff]
  induction h with
  | nil => exact (Decides.pure true).congr (by simp)
  | cons hc _ ih => exact ((hc v hv).sealed.and ih).congr (by simp)

end Parts

theorem decides_runFields (hcalm : World.Calm quiet seen items) {ps : List (Property TypeExpr)}
    {fields : List (String × Check Value)}
    (h : List.Forall₂ (fun p f => p.key = f.1 ∧
      f.2.Answers quiet seen call (p.value.Admits items holds)) ps fields) {v : Value}
    (hv : seen v) :
    Decides quiet (Check.run.runFields (Hooks.plain.surroundings call) fields v)
      (∀ p ∈ ps, p.value.Admits items holds (v.readProperty p.key)) := by
  induction h with
  | nil => exact (Decides.pure true).congr (by simp)
  | cons hf _ ih =>
    obtain ⟨hkey, hf⟩ := hf
    rw [List.forall_mem_cons, hkey, Check.runFields_cons, read_plain, pure_bind]
    exact (hf _ (hcalm.property v hv _)).sealed.and ih

theorem answers_object (hcalm : World.Calm quiet seen items) {ps : List (Property TypeExpr)}
    {fields : List (String × Check Value)}
    (h : List.Forall₂ (fun p f => p.key = f.1 ∧
      f.2.Answers quiet seen call (p.value.Admits items holds)) ps fields) :
    (Check.object fields).Answers quiet seen call ((object ps).Admits items holds) := by
  intro v hv
  rw [admits_object_iff]
  cases hobject : v.isObject with
  | true =>
    simpa [Check.test, Check.testWith, Check.run_object, hobject] using decides_runFields hcalm h hv
  | false =>
    simpa [Check.test, Check.testWith, Check.run_object, hobject] using
      (Decides.pure false : Decides quiet _ _)

/-- Where the checks of the names in a type decide what the names hold of, the check of the type
decides which values it admits. -/
theorem answers_compile (hcalm : World.Calm quiet seen items) (t : TypeExpr) :
    (∀ x, named x ∈ t.subtrees → ∀ c, compileName env x = .ok c →
      c.Answers quiet seen call (holds x)) →
    ∀ c, t.compile env = .ok c → c.Answers quiet seen call (t.Admits items holds) := by
  induction t using children_induction with
  | h t ih =>
    intro hnames c hc
    have hchild : ∀ u ∈ t.children, ∀ d, u.compile env = .ok d →
        d.Answers quiet seen call (u.Admits items holds) := fun u hu =>
      ih u hu fun x hx => hnames x (subtrees_subset_of_mem_children hu hx)
    cases t with
    | named name =>
      intro v hv
      exact (hnames name (mem_subtrees_self _) c hc v hv).congr admits_named_iff.symm
    | nullable t =>
      obtain ⟨d, hd, rfl⟩ := bind_pure_eq_ok_iff.mp hc
      exact answers_nullable (hchild t List.mem_cons_self d hd)
    | array t =>
      obtain ⟨d, hd, rfl⟩ := bind_pure_eq_ok_iff.mp hc
      exact answers_array hcalm (hchild t List.mem_cons_self d hd)
    | tuple ts =>
      obtain ⟨cs, hcs, rfl⟩ := bind_pure_eq_ok_iff.mp hc
      exact answers_tuple (forall₂_of_compileAll hchild hcs) hcalm
    | object ps =>
      obtain ⟨-, fields, hfields, rfl⟩ := compile_object_eq_ok_iff.mp hc
      have hps := forall₂_of_compileFields
        (fun p hp => hchild p.value (List.mem_map_of_mem hp)) hfields
      exact answers_object hcalm hps
    | union ts =>
      obtain ⟨cs, hcs, rfl⟩ := bind_pure_eq_ok_iff.mp hc
      exact answers_union (forall₂_of_compileAll hchild hcs)
    | intersection ts =>
      obtain ⟨cs, hcs, rfl⟩ := bind_pure_eq_ok_iff.mp hc
      exact answers_intersection (forall₂_of_compileAll hchild hcs)
    | literal l =>
      cases hc
      exact fun v _ => (Decides.pure (l.accepts v)).congr admits_literal_iff.symm
    | primitive kind =>
      cases kind <;> cases hc
      · exact fun v _ => (Decides.pure v.isString).congr ⟨.string, fun | .string h => h⟩
      · exact fun v _ => (Decides.pure v.isNumber).congr ⟨.number, fun | .number h => h⟩
      · exact fun v _ => (Decides.pure v.isBoolean).congr ⟨.boolean, fun | .boolean h => h⟩
    | null =>
      cases hc
      exact fun v _ => (Decides.pure v.isNull).congr admits_null_iff.symm
    | void =>
      cases hc
      exact fun v _ => (Decides.pure v.isVoid).congr admits_void_iff.symm
    | any =>
      cases hc
      exact fun v _ => (Decides.pure true).congr ⟨fun _ => .any, fun _ => rfl⟩
    | function | stray | foreign | derived => cases hc

end TypeExpr

end Decides

/-! ## Types without references -/

def Value.isOfName (name : String) (v : Value) : Bool :=
  if name = "Function" then v.isCallable
  else if name = "Object" then v.isObject
  else v.isNamed name

theorem World.calm_alone (w : World) : World.Calm (· = w) (fun _ => True) w.items :=
  ⟨fun _ hw _ _ _ _ => hw ▸ rfl, fun _ _ _ _ _ _ => trivial, fun _ _ _ => trivial⟩

namespace Predicate

variable {t : TypeExpr} {p : Predicate Value}

theorem answers_of_compile_nil (hp : compile ([] : Environment Value) t = .ok p) (call : Caller)
    (w : World) :
    p.check.Answers (· = w) (fun _ => True) call
      (t.Admits w.items fun x v => v.isOfName x = true) := by
  refine TypeExpr.answers_compile w.calm_alone t (fun x _ c hc => ?_) _ (of_compile_eq_ok hp).1
  unfold TypeExpr.compileName at hc
  unfold Value.isOfName
  split_ifs at hc ⊢ <;> cases hc
  · exact fun v _ => .pure v.isCallable
  · exact fun v _ => .pure v.isObject
  · exact fun v _ => .pure (v.isNamed x)

/-- A type that was compiled without references answers which values it admits and changes nothing. -/
theorem execute_test_of_compile_nil (hp : compile ([] : Environment Value) t = .ok p)
    (call : Caller) (w : World) (v : Value) :
    ∃ b, (p.check.test call v).execute w = (.ok b, w) ∧
      (b = true ↔ t.Admits w.items (fun x v => v.isOfName x = true) v) := by
  obtain ⟨b, hb, hbv⟩ := answers_of_compile_nil hp call w v trivial
  obtain ⟨_, rfl, hrun⟩ := hb w rfl
  exact ⟨b, hrun, hbv⟩

end Predicate

end TypeGuard
