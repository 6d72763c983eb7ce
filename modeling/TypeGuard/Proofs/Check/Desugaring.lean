import TypeGuard.Callable.Invoke
import TypeGuard.Proofs.Callable.Growth
import TypeGuard.Proofs.Check.Compilation
import TypeGuard.Proofs.Check.Composition

/-! # Desugaring

Some types are short for others: `?T` for `null | void | T`, a union or an intersection inside
another of its kind for one with all the members, and an object type for the intersection of its
single properties. Writing a type out, anywhere and any number of times, changes little in what its
check does: over all effects, it asks the same callbacks about the same values in the same order,
and ends in the same way. Only where `?T` is written out does `T` come to stand in a generator, if it
did not stand in one before; then the end of an iterator that leaves it looks like another failure.
-/

namespace TypeGuard

/-! ## Surroundings with generators -/

/-- A generator passes answers on, looks at each step of what it runs, and finds nothing to change in
what another generator ran for it. -/
structure Surroundings.Lawful {m : Type → Type} [Monad m] {ρ : Type} (s : Surroundings m ρ) :
    Prop where
  sealed_pure : ∀ b, s.sealed (pure b) = pure b
  sealed_bind : ∀ (x : m Bool) (f : Bool → m Bool),
    s.sealed (x >>= f) = s.sealed x >>= fun b => s.sealed (f b)
  sealed_inner : ∀ {α : Type} (x : m α) (f : α → m Bool),
    s.sealed (x >>= fun a => s.sealed (f a)) = s.sealed (x >>= f)

theorem Surroundings.Lawful.sealed_sealed {m : Type → Type} [Monad m] [LawfulMonad m] {ρ : Type}
    {s : Surroundings m ρ} (hs : s.Lawful) (x : m Bool) : s.sealed (s.sealed x) = s.sealed x := by
  simpa only [pure_bind] using hs.sealed_inner (pure ()) fun _ => x

theorem Run.sealed_bind {α β : Type} (x : Run α) (f : α → Run β) :
    (x >>= f).sealed = x.sealed >>= fun a => (f a).sealed := by
  refine ExceptT.ext (StateT.ext fun w => ?_)
  change (x >>= f).sealed.execute w = (x.sealed >>= fun a => (f a).sealed).execute w
  rw [execute_sealed]
  rcases hx : x.execute w with ⟨e | a, w'⟩
  · have hsealed : x.sealed.execute w = (.error e.sealed, w') := by rw [execute_sealed, hx]; rfl
    rw [execute_bind_error hx, execute_bind_error hsealed]
    rfl
  · have hsealed : x.sealed.execute w = (.ok a, w') := by rw [execute_sealed, hx]; rfl
    rw [execute_bind_ok hx, execute_bind_ok hsealed, execute_sealed]

theorem Run.sealed_sealed {α : Type} (x : Run α) : x.sealed.sealed = x.sealed := by
  refine ExceptT.ext (StateT.ext fun w => ?_)
  change x.sealed.sealed.execute w = x.sealed.execute w
  rw [execute_sealed, execute_sealed]
  cases (x.execute w).1 with
  | ok a => rfl
  | error e => simp [Except.mapError]

theorem Hooks.lawful_surroundings (hooks : Hooks) (call : Caller) :
    (hooks.surroundings call).Lawful :=
  ⟨fun _ => rfl, Run.sealed_bind, fun x f => by
    change (x >>= fun a => (f a).sealed).sealed = (x >>= f).sealed
    simp only [Run.sealed_bind, Run.sealed_sealed]⟩

/-! ## Checks that do the same -/

namespace Check

variable {ρ : Type}

/-- Two checks do the same on every value, whatever lists hold, whatever callbacks answer, and
whatever either of them does besides; or the second does what the first does as a step of a
generator. -/
def Alike (isStep : Bool) (c d : Check ρ) : Prop :=
  ∀ (m : Type → Type) [Monad m] [LawfulMonad m] (s : Surroundings m ρ), s.Lawful →
    ∀ v : Value, d.run s v = if isStep then s.sealed (c.run s v) else c.run s v

theorem Alike.refl (c : Check ρ) : c.Alike false c := by
  intro m _ _ s _ v
  rfl

theorem Alike.trans {c d e : Check ρ} {isStep isStep' : Bool} (h : c.Alike isStep d)
    (h' : d.Alike isStep' e) : c.Alike (isStep || isStep') e := by
  intro m _ _ s hs v
  rw [h' m s hs v, h m s hs v]
  cases isStep <;> cases isStep' <;> simp [hs.sealed_sealed]

/-- As a step of a generator the one does what the other does. -/
theorem Alike.sealed_eq {c d : Check ρ} {isStep : Bool} (h : c.Alike isStep d) {m : Type → Type}
    [Monad m] [LawfulMonad m] {s : Surroundings m ρ} (hs : s.Lawful) (v : Value) :
    s.sealed (d.run s v) = s.sealed (c.run s v) := by
  rw [h m s hs v]
  cases isStep <;> simp [hs.sealed_sealed]

theorem Alike.test_eq {c d : Check Value} (h : c.Alike false d) (call : Caller) (v : Value) :
    d.test call v = c.test call v :=
  h Run _ (Hooks.plain.lawful_surroundings call) v

theorem ite_bind_eq {m : Type → Type} [Monad m] [LawfulMonad m] (x : m Bool) :
    (do if ← x then return true else return false) = x := by
  have h : (fun b => if b = true then pure true else pure false) = (pure : Bool → m Bool) := by
    ext b
    cases b <;> rfl
  rw [h, bind_pure]

section Run

variable {m : Type → Type} [Monad m] [LawfulMonad m] {s : Surroundings m ρ}

theorem runAny_append (cs ds : List (Check ρ)) (v : Value) :
    run.runAny s (cs ++ ds) v =
      (do if ← run.runAny s cs v then return true else run.runAny s ds v) := by
  induction cs with
  | nil => rw [List.nil_append, runAny_nil, pure_bind, if_neg Bool.false_ne_true]
  | cons c cs ih =>
    rw [List.cons_append, runAny_cons, runAny_cons, ih, bind_assoc]
    apply bind_congr
    intro b
    cases b <;> simp

theorem runAll_append (cs ds : List (Check ρ)) (v : Value) :
    run.runAll s (cs ++ ds) v =
      (do if ← run.runAll s cs v then run.runAll s ds v else return false) := by
  induction cs with
  | nil => rw [List.nil_append, runAll_nil, pure_bind, if_pos rfl]
  | cons c cs ih =>
    rw [List.cons_append, runAll_cons, runAll_cons, ih, bind_assoc]
    apply bind_congr
    intro b
    cases b <;> simp

variable (hs : s.Lawful)

include hs

/-- All that a generator does is in its steps. -/
theorem sealed_runAny (cs : List (Check ρ)) (v : Value) :
    s.sealed (run.runAny s cs v) = run.runAny s cs v := by
  induction cs with
  | nil => exact hs.sealed_pure false
  | cons c cs ih =>
    rw [runAny_cons, hs.sealed_bind, hs.sealed_sealed]
    apply bind_congr
    intro b
    cases b with
    | false => exact ih
    | true => exact hs.sealed_pure true

theorem sealed_runAll (cs : List (Check ρ)) (v : Value) :
    s.sealed (run.runAll s cs v) = run.runAll s cs v := by
  induction cs with
  | nil => exact hs.sealed_pure true
  | cons c cs ih =>
    rw [runAll_cons, hs.sealed_bind, hs.sealed_sealed]
    apply bind_congr
    intro b
    cases b with
    | false => exact hs.sealed_pure false
    | true => exact ih

theorem runAll_singleFields (fields : List (String × Check ρ)) {v : Value}
    (hv : v.isObject = true) :
    run.runAll s (fields.map fun f => object [f]) v = run.runFields s fields v := by
  induction fields with
  | nil => rfl
  | cons f fields ih =>
    have hsingle : (object [f]).run s v = s.sealed (do f.2.run s (← s.read v f.1)) := by
      rw [run_object, if_pos hv, runFields_cons]
      exact ite_bind_eq _
    rw [List.map_cons, runAll_cons, runFields_cons, hsingle, hs.sealed_sealed, ih]

end Run

theorem alike_nullable (c : Check ρ) : (nullable c).Alike true (union [null, void, c]) := by
  intro m _ _ s hs v
  have hnull : s.sealed ((null : Check ρ).run s v) = pure v.isNull := hs.sealed_pure _
  have hvoid : s.sealed ((void : Check ρ).run s v) = pure v.isVoid := hs.sealed_pure _
  have hlast : run.runAny s [c] v = s.sealed (c.run s v) := ite_bind_eq _
  rw [if_pos rfl, run_nullable, run_union, runAny_cons, runAny_cons, hlast, hnull, hvoid, pure_bind,
    pure_bind, Value.isNullish]
  cases v.isNull <;> cases v.isVoid <;> simp [hs.sealed_pure]

theorem alike_union (cs ds es : List (Check ρ)) :
    (union (cs ++ union ds :: es)).Alike false (union (cs ++ ds ++ es)) := by
  intro m _ _ s hs v
  rw [if_neg Bool.false_ne_true, run_union, run_union, List.append_assoc, runAny_append cs,
    runAny_append cs, runAny_append ds, runAny_cons, run_union, sealed_runAny hs]

theorem alike_intersection (cs ds es : List (Check ρ)) :
    (intersection (cs ++ intersection ds :: es)).Alike false
      (intersection (cs ++ ds ++ es)) := by
  intro m _ _ s hs v
  rw [if_neg Bool.false_ne_true, run_intersection, run_intersection, List.append_assoc,
    runAll_append cs, runAll_append cs, runAll_append ds, runAll_cons, run_intersection,
    sealed_runAll hs]

theorem alike_object (fields : List (String × Check ρ)) :
    (object fields).Alike false
      (intersection (structured :: fields.map fun f => object [f])) := by
  intro m _ _ s hs v
  have hstructured : s.sealed ((structured : Check ρ).run s v) = pure v.isObject :=
    hs.sealed_pure _
  rw [if_neg Bool.false_ne_true, run_object, run_intersection, runAll_cons, hstructured, pure_bind]
  by_cases hv : v.isObject = true
  · rw [if_pos hv, if_pos hv, runAll_singleFields hs fields hv]
  · rw [if_neg hv, if_neg hv]

/-! ### Parts -/

theorem Alike.nullable {c d : Check ρ} {isStep : Bool} (h : c.Alike isStep d) :
    (nullable c).Alike isStep (nullable d) := by
  intro m _ _ s hs v
  rw [run_nullable, run_nullable, h m s hs v]
  cases isStep <;> cases v.isNullish <;> simp [hs.sealed_pure]

/-! The other parts of types are steps of generators, in which checks that are alike do the same. -/

section Steps

variable {c d : Check ρ} {isStep : Bool} (h : c.Alike isStep d)

include h

theorem Alike.array : (array c).Alike false (array d) := by
  intro m _ _ s hs v
  have hsealed : (fun u => s.sealed (d.run s u)) = fun u => s.sealed (c.run s u) :=
    funext (h.sealed_eq hs)
  rw [if_neg Bool.false_ne_true, run_array, run_array, hsealed]

theorem Alike.tuple (cs es : List (Check ρ)) :
    (tuple (cs ++ c :: es)).Alike false (tuple (cs ++ d :: es)) := by
  intro m _ _ s hs v
  have heach (index : ℕ) :
      run.runEach s (cs ++ d :: es) v index = run.runEach s (cs ++ c :: es) v index := by
    induction cs generalizing index with
    | nil => simp only [List.nil_append, runEach_cons, h.sealed_eq hs]
    | cons b cs ih => simp only [List.cons_append, runEach_cons, ih]
  simp only [if_neg Bool.false_ne_true, run_tuple, heach, List.length_append, List.length_cons]

theorem Alike.object (fields fields' : List (String × Check ρ)) (key : String) :
    (object (fields ++ (key, c) :: fields')).Alike false
      (object (fields ++ (key, d) :: fields')) := by
  intro m _ _ s hs v
  have hsealed : s.sealed (do d.run s (← s.read v key)) = s.sealed (do c.run s (← s.read v key)) := by
    rw [← hs.sealed_inner, ← hs.sealed_inner (f := c.run s)]
    simp only [h.sealed_eq hs]
  have hfields : run.runFields s (fields ++ (key, d) :: fields') v =
      run.runFields s (fields ++ (key, c) :: fields') v := by
    induction fields with
    | nil => simp only [List.nil_append, runFields_cons, hsealed]
    | cons f fields ih => simp only [List.cons_append, runFields_cons, ih]
  rw [if_neg Bool.false_ne_true, run_object, run_object, hfields]

theorem Alike.union (cs es : List (Check ρ)) :
    (union (cs ++ c :: es)).Alike false (union (cs ++ d :: es)) := by
  intro m _ _ s hs v
  rw [if_neg Bool.false_ne_true, run_union, run_union, runAny_append, runAny_append, runAny_cons,
    runAny_cons, h.sealed_eq hs v]

theorem Alike.intersection (cs es : List (Check ρ)) :
    (intersection (cs ++ c :: es)).Alike false (intersection (cs ++ d :: es)) := by
  intro m _ _ s hs v
  rw [if_neg Bool.false_ne_true, run_intersection, run_intersection, runAll_append, runAll_append,
    runAll_cons, runAll_cons, h.sealed_eq hs v]

end Steps

end Check

/-! ## Writing types out -/

namespace TypeExpr

/-- A type, and what it is short for; for a nullable type that is tested by a generator. -/
inductive ShortFor : Bool → TypeExpr → TypeExpr → Prop
  | nullable (t) : ShortFor true (.nullable t) (.union [.null, .void, t])
  | union (ts us vs) : ShortFor false (.union (ts ++ .union us :: vs)) (.union (ts ++ us ++ vs))
  | intersection (ts us vs) : ShortFor false (.intersection (ts ++ .intersection us :: vs))
      (.intersection (ts ++ us ++ vs))
  | object (ps : List (Property TypeExpr)) :
      ShortFor false (.object ps) (.intersection (.named "Object" :: ps.map fun p => .object [p]))

/-- One type inside another, or the whole of it, is written out. Whether that makes the test a step of
a generator matters only if the place is in none: if it is the whole or under `?` alone. -/
inductive WritesOut : Bool → TypeExpr → TypeExpr → Prop
  | whole {isStep t u} : ShortFor isStep t u → WritesOut isStep t u
  | nullable {isStep t u} : WritesOut isStep t u → WritesOut isStep (.nullable t) (.nullable u)
  | array {isStep t u} : WritesOut isStep t u → WritesOut false (.array t) (.array u)
  | tuple {isStep t u} (ts vs) : WritesOut isStep t u →
      WritesOut false (.tuple (ts ++ t :: vs)) (.tuple (ts ++ u :: vs))
  | object {isStep t u} (ps qs) (key : String) (optional : Bool) : WritesOut isStep t u →
      WritesOut false (.object (ps ++ ⟨key, optional, t⟩ :: qs))
        (.object (ps ++ ⟨key, optional, u⟩ :: qs))
  | union {isStep t u} (ts vs) : WritesOut isStep t u →
      WritesOut false (.union (ts ++ t :: vs)) (.union (ts ++ u :: vs))
  | intersection {isStep t u} (ts vs) : WritesOut isStep t u →
      WritesOut false (.intersection (ts ++ t :: vs)) (.intersection (ts ++ u :: vs))

inductive WrittenOut : Bool → TypeExpr → TypeExpr → Prop
  | refl (t) : WrittenOut false t t
  | tail {isStep isStep' t u v} : WrittenOut isStep t u → WritesOut isStep' u v →
      WrittenOut (isStep || isStep') t v

section Compile

variable {ρ : Type} {env : Environment ρ}

theorem compileAll_singleFields {ps : List (Property TypeExpr)} {fields : List (String × Check ρ)}
    (hps : firstOptional ps = none) (h : compile.compileFields env ps = .ok fields) :
    compile.compileAll env (ps.map fun p => object [p]) =
      .ok (fields.map fun f => .object [f]) := by
  induction ps generalizing fields with
  | nil =>
    cases h
    rfl
  | cons p ps ih =>
    obtain ⟨hp, hps⟩ := firstOptional_cons_eq_none_iff.mp hps
    obtain ⟨d, hd, fields, hfields, rfl⟩ := compileFields_cons_eq_ok_iff.mp h
    have hobject : (object [p]).compile env = .ok (.object [(p.key, d)]) := by
      refine compile_object_eq_ok_iff.mpr ⟨firstOptional_cons_eq_none_iff.mpr ⟨hp, rfl⟩, _, ?_, rfl⟩
      exact compileFields_cons_eq_ok_iff.mpr ⟨d, hd, [], rfl, rfl⟩
    exact compileAll_cons_eq_ok_iff.mpr ⟨_, hobject, _, ih hps hfields, rfl⟩

/-- What a type is short for is compiled to a check that does the same. -/
theorem ShortFor.compile {isStep : Bool} {t u : TypeExpr} (h : ShortFor isStep t u) {c : Check ρ}
    (hc : t.compile env = .ok c) : ∃ d, u.compile env = .ok d ∧ c.Alike isStep d := by
  cases h with
  | nullable t =>
    obtain ⟨d, hd, rfl⟩ := bind_pure_eq_ok_iff.mp hc
    refine ⟨_, bind_pure_eq_ok_iff.mpr ⟨[.null, .void, d], ?_, rfl⟩, Check.alike_nullable d⟩
    simp only [compile.compileAll, TypeExpr.compile, hd]
    rfl
  | union ts us vs =>
    obtain ⟨_, hall, rfl⟩ := bind_pure_eq_ok_iff.mp hc
    obtain ⟨cs, hcs, _, hrest, rfl⟩ := compileAll_append_eq_ok_iff.mp hall
    obtain ⟨_, hinner, es, hes, rfl⟩ := compileAll_cons_eq_ok_iff.mp hrest
    obtain ⟨ds, hds, rfl⟩ := bind_pure_eq_ok_iff.mp hinner
    refine ⟨_, bind_pure_eq_ok_iff.mpr ⟨cs ++ ds ++ es, ?_, rfl⟩, Check.alike_union cs ds es⟩
    refine compileAll_append_eq_ok_iff.mpr ⟨cs ++ ds, ?_, es, hes, rfl⟩
    exact compileAll_append_eq_ok_iff.mpr ⟨cs, hcs, ds, hds, rfl⟩
  | intersection ts us vs =>
    obtain ⟨_, hall, rfl⟩ := bind_pure_eq_ok_iff.mp hc
    obtain ⟨cs, hcs, _, hrest, rfl⟩ := compileAll_append_eq_ok_iff.mp hall
    obtain ⟨_, hinner, es, hes, rfl⟩ := compileAll_cons_eq_ok_iff.mp hrest
    obtain ⟨ds, hds, rfl⟩ := bind_pure_eq_ok_iff.mp hinner
    refine ⟨_, bind_pure_eq_ok_iff.mpr ⟨cs ++ ds ++ es, ?_, rfl⟩,
      Check.alike_intersection cs ds es⟩
    refine compileAll_append_eq_ok_iff.mpr ⟨cs ++ ds, ?_, es, hes, rfl⟩
    exact compileAll_append_eq_ok_iff.mpr ⟨cs, hcs, ds, hds, rfl⟩
  | object ps =>
    obtain ⟨hps, fields, hfields, rfl⟩ := compile_object_eq_ok_iff.mp hc
    refine ⟨_, bind_pure_eq_ok_iff.mpr ⟨_, ?_, rfl⟩, Check.alike_object fields⟩
    have hsingle := compileAll_singleFields hps hfields
    exact compileAll_cons_eq_ok_iff.mpr ⟨.structured, rfl, _, hsingle, rfl⟩

theorem compileAll_replace {isStep : Bool} {t u : TypeExpr} {ts vs : List TypeExpr}
    {cs : List (Check ρ)} (h : compile.compileAll env (ts ++ t :: vs) = .ok cs)
    (ih : ∀ c, t.compile env = .ok c → ∃ d, u.compile env = .ok d ∧ c.Alike isStep d) :
    ∃ before c d after, cs = before ++ c :: after ∧ c.Alike isStep d ∧
      compile.compileAll env (ts ++ u :: vs) = .ok (before ++ d :: after) := by
  obtain ⟨before, c, after, rfl, hc, haround⟩ := compileAll_around h
  obtain ⟨d, hd, halike⟩ := ih c hc
  exact ⟨before, c, d, after, rfl, halike, haround u d hd⟩

/-- A type written out in one place is compiled to a check that does the same. -/
theorem WritesOut.compile {isStep : Bool} {t u : TypeExpr} (h : WritesOut isStep t u) :
    ∀ c : Check ρ, t.compile env = .ok c → ∃ d, u.compile env = .ok d ∧ c.Alike isStep d := by
  induction h with
  | whole h => exact fun c hc => h.compile hc
  | nullable _ ih =>
    intro c h
    obtain ⟨c, hc, rfl⟩ := bind_pure_eq_ok_iff.mp h
    obtain ⟨d, hd, halike⟩ := ih c hc
    exact ⟨_, bind_pure_eq_ok_iff.mpr ⟨d, hd, rfl⟩, halike.nullable⟩
  | array _ ih =>
    intro c h
    obtain ⟨c, hc, rfl⟩ := bind_pure_eq_ok_iff.mp h
    obtain ⟨d, hd, halike⟩ := ih c hc
    exact ⟨_, bind_pure_eq_ok_iff.mpr ⟨d, hd, rfl⟩, halike.array⟩
  | tuple ts vs _ ih =>
    intro c h
    obtain ⟨cs, hcs, rfl⟩ := bind_pure_eq_ok_iff.mp h
    obtain ⟨before, c, d, after, rfl, halike, hds⟩ := compileAll_replace hcs ih
    exact ⟨_, bind_pure_eq_ok_iff.mpr ⟨_, hds, rfl⟩, halike.tuple before after⟩
  | union ts vs _ ih =>
    intro c h
    obtain ⟨cs, hcs, rfl⟩ := bind_pure_eq_ok_iff.mp h
    obtain ⟨before, c, d, after, rfl, halike, hds⟩ := compileAll_replace hcs ih
    exact ⟨_, bind_pure_eq_ok_iff.mpr ⟨_, hds, rfl⟩, halike.union before after⟩
  | intersection ts vs _ ih =>
    intro c h
    obtain ⟨cs, hcs, rfl⟩ := bind_pure_eq_ok_iff.mp h
    obtain ⟨before, c, d, after, rfl, halike, hds⟩ := compileAll_replace hcs ih
    exact ⟨_, bind_pure_eq_ok_iff.mpr ⟨_, hds, rfl⟩, halike.intersection before after⟩
  | object ps qs key optional _ ih =>
    intro c h
    obtain ⟨before, c, after, rfl, hc, haround⟩ := compile_object_around h
    obtain ⟨d, hd, halike⟩ := ih c hc
    exact ⟨_, haround _ d hd, halike.object before after key⟩

theorem WrittenOut.compile {isStep : Bool} {t u : TypeExpr} (h : WrittenOut isStep t u) :
    ∀ c : Check ρ, t.compile env = .ok c → ∃ d, u.compile env = .ok d ∧ c.Alike isStep d := by
  induction h with
  | refl => exact fun c hc => ⟨c, hc, .refl c⟩
  | tail _ hstep ih =>
    intro c hc
    obtain ⟨d, hd, halike⟩ := ih c hc
    obtain ⟨e, he, halike'⟩ := hstep.compile d hd
    exact ⟨e, he, halike.trans halike'⟩

end Compile

end TypeExpr

open TypeExpr

theorem Check.Alike.execute_testWith {c d : Check Value} {isStep : Bool} (h : c.Alike isStep d)
    (hooks : Hooks) (call : Caller) (v : Value) (w : World) :
    let ending := (c.testWith hooks call v).execute w
    (d.testWith hooks call v).execute w =
      (if isStep then ending.1.mapError Error.sealed else ending.1, ending.2) := by
  intro ending
  rw [Check.testWith, h Run _ (hooks.lawful_surroundings call) v]
  cases isStep <;> rfl

/-- A type that compiles also compiles when it is written out, to a check that does the same in every
world: it calls the same, leaves the same world, and ends in the same way. Only if a nullable type
that stands in no other type but nullable ones was written out, the end of an iterator that leaves
the check looks like any failure inside a generator. Where references are described by texts, the
description is written out too. -/
theorem TypeExpr.compile_of_writesOut {isStep : Bool} {t u : TypeExpr} (h : WrittenOut isStep t u)
    (env : Environment Value) :
    (∀ c, t.compile env = .ok c → ∃ d, u.compile env = .ok d ∧ c.Alike isStep d ∧
      ∀ (hooks : Hooks) (call : Caller) (v : Value) (w : World),
        (d.testWith hooks call v).execute w =
          (if isStep then ((c.testWith hooks call v).execute w).1.mapError Error.sealed
            else ((c.testWith hooks call v).execute w).1,
            ((c.testWith hooks call v).execute w).2)) ∧
    (env.HasTexts → ∀ p, Predicate.compile env t = .ok p →
      ∃ q, Predicate.compile env u = .ok q ∧ p.check.Alike isStep q.check) := by
  constructor
  · intro c hc
    obtain ⟨d, hd, halike⟩ := h.compile c hc
    exact ⟨d, hd, halike, halike.execute_testWith⟩
  · intro htexts p hp
    obtain ⟨d, hd, halike⟩ := h.compile _ (Predicate.of_compile_eq_ok hp).1
    exact ⟨_, (Predicate.compile_eq_ok_iff htexts).mpr ⟨d, hd, rfl⟩, halike⟩

/-- An array of nullable objects, one of whose properties asks a callback: all that is written out
stands in the generator of the array. -/
theorem TypeExpr.compile_of_writesOut_nullable_object :
    let inner : TypeExpr := .union [.union [.primitive .string, .named "$Ref0"], .null]
    let t : TypeExpr := .array (.nullable (.object [⟨"a", false, inner⟩, ⟨"b", false, .any⟩]))
    let u : TypeExpr := .array (.union [.null, .void, .intersection [.named "Object",
      .object [⟨"a", false, .union [.primitive .string, .named "$Ref0", .null]⟩],
      .object [⟨"b", false, .any⟩]]])
    let env : Environment Value :=
      [("$Ref0", ⟨.callback (.agent .function 0), .text "f", .primary⟩)]
    WrittenOut false t u ∧ env.HasTexts ∧
      ∃ c d, t.compile env = .ok c ∧ u.compile env = .ok d ∧
        ∀ call v w, (d.test call v).execute w = (c.test call v).execute w := by
  intro inner t u env
  have h : WrittenOut false t u := by
    refine .tail (.tail (.tail (.refl t) (.array (.whole (.nullable _))))
      (.array (.union [.null, .void] [] (.whole (.object _))))) ?_
    have hmember := WritesOut.object [] [] "a" false
      (.whole (.union [] [.primitive .string, .named "$Ref0"] [.null]))
    exact .array (.union [.null, .void] [] (.intersection [.named "Object"] _ hmember))
  have htexts : env.HasTexts := by
    intro name r hr
    obtain ⟨before, after, henv, -⟩ := List.lookup_eq_some_iff.mp hr
    have hmem : (name, r) ∈ env := henv ▸ List.mem_append_cons_self
    obtain ⟨-, rfl⟩ := Prod.mk.inj (List.mem_singleton.mp hmem)
    exact ⟨_, rfl⟩
  obtain ⟨c, hc⟩ : ∃ c, t.compile env = .ok c := ⟨_, rfl⟩
  obtain ⟨d, hd, -, hsame⟩ := (compile_of_writesOut h env).1 c hc
  exact ⟨h, htexts, c, d, hc, hd, fun call v w => hsame .plain call v w⟩

/-- Two types that are written out and do not do the same: a callback ends an iterator under `?`, and
another one in a union; and a name `Object` that is not described by a text comes to be written. -/
theorem TypeExpr.written_out_differs :
    let r : Value := .agent .function 0
    let stop : Agent := .function ⟨"f", [⟨"p0", .positional, false⟩], .raise .stop "", []⟩
    let w : World := { World.empty with agents := [stop] }
    let env : Environment Value := [("$Ref0", ⟨.callback r, .text "f", .primary⟩)]
    let t : TypeExpr := .nullable (.named "$Ref0")
    let u : TypeExpr := .union [.null, .void, .named "$Ref0"]
    let c : Check Value := .nullable (.callback r)
    let d : Check Value := .union [.null, .void, .callback r]
    let env' : Environment Value :=
      [("Object", ⟨.class (.ofBuiltin .dict), .value (.int 5) "5", .primary⟩)]
    let t' : TypeExpr := .object [⟨"k", false, .primitive .string⟩]
    let u' : TypeExpr := .intersection [.named "Object", t']
    (WrittenOut true t u ∧ t.compile env = .ok c ∧ u.compile env = .ok d ∧
      ((c.test Value.call (.int 1)).execute w).1 = .error (.raised .stop "") ∧
      ((d.test Value.call (.int 1)).execute w).1 =
        .error (.raised .runtime "generator raised StopIteration")) ∧
      WrittenOut false t' u' ∧ (∃ p, Predicate.compile env' t' = .ok p) ∧
        Predicate.compile env' u' = .error .misuse := by
  refine ⟨⟨.tail (.refl _) (.whole (.nullable _)), rfl, rfl, rfl, rfl⟩,
    .tail (.refl _) (.whole (.object _)), ⟨_, rfl⟩, rfl⟩

end TypeGuard
