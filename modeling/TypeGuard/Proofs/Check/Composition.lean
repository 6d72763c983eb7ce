import TypeGuard.Proofs.Check.Writing
import TypeGuard.Proofs.Except
import TypeGuard.Proofs.TypeExpr.Expansion

/-! # Compositions

A compiled type can be embedded in another type, where it goes by a name of that type. A composition
is the history of such a type: its tree, and the histories of what its names stand for. The same
name may stand for different things at different depths, and each keeps its own meaning: the
composition accepts what the expanded tree accepts.
-/

namespace TypeGuard

/-- A type with the compositions that its names stand for. -/
structure Composition where
  node : TypeExpr
  refs : List (String × Composition)

namespace Composition

/-- Induction over the compositions that names stand for. -/
@[elab_as_elim] theorem induction {P : Composition → Prop}
    (h : ∀ node refs, (∀ r ∈ refs, P r.2) → P ⟨node, refs⟩) (c : Composition) : P c := by
  refine @Composition.rec P (fun refs => ∀ r ∈ refs, P r.2) (fun r => P r.2) h ?_ ?_ ?_ c
  · exact fun _ h => absurd h List.not_mem_nil
  · exact fun _ _ hr hrs => List.forall_mem_cons.mpr ⟨hr, hrs⟩
  · exact fun _ _ h => h

/-- The type in which each name is replaced by the expanded tree of what it stands for. -/
def expand : Composition → TypeExpr
  | ⟨node, refs⟩ => node.expand (expandRef refs)
termination_by structural c => c
where
  /-- The expanded tree of what a name stands for. -/
  expandRef : List (String × Composition) → String → Option TypeExpr
    | [], _ => none
    | (name, c) :: refs, x => if x = name then some c.expand else expandRef refs x
  termination_by structural refs => refs

end Composition

def Predicate.reference {ρ : Type} (p : Predicate ρ) : Reference ρ :=
  ⟨.predicate p.check, p.description, p.node.level⟩

namespace Composition

variable {ρ : Type}

def compile : Composition → Except Error (Predicate ρ)
  | ⟨node, refs⟩ => do Predicate.compile (← compileRefs refs) node
termination_by structural c => c
where
  /-- Compiles what names stand for, each in its own environment. -/
  compileRefs : List (String × Composition) → Except Error (Environment ρ)
    | [] => .ok []
    | (name, c) :: refs => do
      let p ← c.compile
      let env ← compileRefs refs
      return (name, p.reference) :: env
  termination_by structural refs => refs

end Composition

/-! ## Substitution -/

namespace TypeExpr

variable {ρ : Type} {env env' : Environment ρ} {f : String → Option TypeExpr}

theorem firstOptional_expandValues (ps : List (Property TypeExpr)) :
    firstOptional (expand.expandValues f ps) = firstOptional ps := by
  induction ps with
  | nil => rfl
  | cons p ps ih =>
    simp only [firstOptional, expand.expandValues, List.find?_cons] at ih ⊢
    cases p.optional with
    | false => exact ih
    | true => rfl

theorem compileAll_expandAll {ts : List TypeExpr}
    (h : ∀ t ∈ ts, (t.expand f).compile env' = t.compile env) :
    compile.compileAll env' (expand.expandAll f ts) = compile.compileAll env ts := by
  induction ts with
  | nil => rfl
  | cons t ts ih =>
    obtain ⟨ht, hts⟩ := List.forall_mem_cons.mp h
    rw [expand.expandAll, compile.compileAll, compile.compileAll, ht, ih hts]

theorem compileFields_expandValues {ps : List (Property TypeExpr)}
    (h : ∀ p ∈ ps, (p.value.expand f).compile env' = p.value.compile env) :
    compile.compileFields env' (expand.expandValues f ps) = compile.compileFields env ps := by
  induction ps with
  | nil => rfl
  | cons p ps ih =>
    obtain ⟨hp, hps⟩ := List.forall_mem_cons.mp h
    rw [expand.expandValues, compile.compileFields, compile.compileFields, hp, ih hps]

/-- Replacing names before compiling is compiling them to what they are replaced by. -/
theorem compile_expand (h : ∀ name, (expandName f name).compile env' = compileName env name)
    (t : TypeExpr) : (t.expand f).compile env' = t.compile env := by
  induction t using TypeExpr.induction with
  | named name => exact h name
  | nullable t ih | array t ih => rw [expand, compile, compile, ih]
  | tuple ts ih | union ts ih | intersection ts ih =>
    rw [expand, compile, compile, compileAll_expandAll ih]
  | object ps ih =>
    rw [expand, compile, compile, firstOptional_expandValues, compileFields_expandValues ih]
  | _ => rfl

end TypeExpr

/-! ## Descriptions that are texts -/

namespace Environment

variable {ρ : Type} {env : Environment ρ}

def HasTexts (env : Environment ρ) : Prop :=
  ∀ name r, env.find? name = some r → ∃ s, r.description = .text s

theorem hasTexts_nil : HasTexts ([] : Environment ρ) := by
  rintro name r h
  cases h

theorem HasTexts.isText (h : env.HasTexts) (required : Level) (t : TypeExpr) :
    env.isText required t = true := by
  unfold Environment.isText
  split
  · split
    · next hr =>
      obtain ⟨s, hs⟩ := h _ _ hr
      cases hs
    · rfl
  · rfl

theorem HasTexts.joinsTexts (h : env.HasTexts) (t : TypeExpr) : env.joinsTexts t = true := by
  induction t using TypeExpr.children_induction with
  | h t ih =>
    exact joinsTexts_iff_written.mpr
      ⟨fun u _ => h.isText _ u, fun u hu => ih u (t.written_subset_children hu)⟩

theorem HasTexts.describe (h : env.HasTexts) (t : TypeExpr) :
    env.describe t = .ok (.text (t.textWith env.labels)) := by
  by_cases hnamed : ∃ name, t = .named name
  · obtain ⟨name, rfl⟩ := hnamed
    have htext : (TypeExpr.named name).textWith env.labels =
        String.ofList (TypeExpr.renderName env.labels .function name) := rfl
    rw [TypeExpr.describe_named, htext, TypeExpr.renderName, labels]
    cases hr : env.find? name with
    | none => simp
    | some r =>
      obtain ⟨s, hs⟩ := h _ _ hr
      simp [hs, Description.shown]
  · rw [TypeExpr.describe_of_ne_named (not_exists.mp hnamed), if_pos (h.joinsTexts t)]

end Environment

theorem Predicate.compile_of_hasTexts {ρ : Type} {env : Environment ρ} (h : env.HasTexts)
    (t : TypeExpr) :
    Predicate.compile env t = ((t.compile env).mapError Error.definition).map fun check =>
      ⟨t, check, .text (t.textWith env.labels)⟩ := by
  rw [Predicate.compile_eq_describe, h.describe]
  cases (t.compile env).mapError Error.definition <;> rfl

theorem Predicate.compile_eq_ok_iff {ρ : Type} {env : Environment ρ} (h : env.HasTexts)
    {t : TypeExpr} {p : Predicate ρ} :
    Predicate.compile env t = .ok p ↔
      ∃ check, t.compile env = .ok check ∧ ⟨t, check, .text (t.textWith env.labels)⟩ = p := by
  rw [Predicate.compile_of_hasTexts h]
  cases t.compile env <;> simp [Except.mapError, Except.map]

/-! ## Environments of compositions -/

namespace Composition

variable {ρ : Type} {refs : List (String × Composition)} {env : Environment ρ}

theorem compileRefs_cons_eq_ok_iff {name : String} {c : Composition} :
    compile.compileRefs ((name, c) :: refs) = .ok env ↔
      ∃ p : Predicate ρ, c.compile = .ok p ∧
        ∃ rest, compile.compileRefs refs = .ok rest ∧ (name, p.reference) :: rest = env := by
  simp only [compile.compileRefs, bind_eq_ok_iff, pure_eq_ok_iff]

theorem expandRef_eq_map_lookup (refs : List (String × Composition)) (x : String) :
    expand.expandRef refs x = (refs.lookup x).map expand := by
  induction refs with
  | nil => rfl
  | cons r refs ih =>
    rw [expand.expandRef, List.lookup_cons]
    by_cases hx : x = r.1
    · rw [if_pos hx, beq_iff_eq.mpr hx]
      rfl
    · rw [if_neg hx, beq_false_of_ne hx]
      exact ih

theorem find?_of_compileRefs (h : compile.compileRefs refs = .ok env) (x : String) :
    refs.lookup x = none ∧ env.find? x = none ∨
      ∃ c p, (x, c) ∈ refs ∧ refs.lookup x = some c ∧ c.compile = .ok p ∧
        env.find? x = some p.reference := by
  induction refs generalizing env with
  | nil =>
    cases h
    exact .inl ⟨rfl, rfl⟩
  | cons r refs ih =>
    obtain ⟨p, hp, rest, hrest, rfl⟩ := compileRefs_cons_eq_ok_iff.mp h
    rw [Environment.find?, List.lookup_cons, List.lookup_cons]
    by_cases hx : x = r.1
    · subst hx
      rw [beq_self_eq_true]
      exact .inr ⟨r.2, p, List.mem_cons_self, rfl, hp, rfl⟩
    · rw [beq_false_of_ne hx]
      rcases ih hrest with hnone | ⟨c, q, hmem, hc⟩
      · exact .inl hnone
      · exact .inr ⟨c, q, List.mem_cons_of_mem _ hmem, hc⟩

theorem compile_eq_ok_iff {c : Composition} {p : Predicate ρ} :
    c.compile = .ok p ↔
      ∃ env, compile.compileRefs c.refs = .ok env ∧ Predicate.compile env c.node = .ok p := by
  cases c
  exact bind_eq_ok_iff

theorem hasTexts_of_forall (h : compile.compileRefs refs = .ok env)
    (htext : ∀ r ∈ refs, ∀ p : Predicate ρ, r.2.compile = .ok p → ∃ s, p.description = .text s) :
    env.HasTexts := by
  intro x r hr
  rcases find?_of_compileRefs h x with ⟨-, hnone⟩ | ⟨c, p, hmem, -, hp, hfind⟩
  · rw [hnone] at hr
    cases hr
  · obtain rfl : p.reference = r := Option.some.inj (hfind.symm.trans hr)
    exact htext _ hmem p hp

theorem exists_text_of_compile (c : Composition) :
    ∀ p : Predicate ρ, c.compile = .ok p → ∃ s, p.description = .text s := by
  induction c using Composition.induction with
  | h node refs ih =>
    intro p hp
    obtain ⟨env, henv, hnode⟩ := compile_eq_ok_iff.mp hp
    obtain ⟨check, -, rfl⟩ := (Predicate.compile_eq_ok_iff (hasTexts_of_forall henv ih)).mp hnode
    exact ⟨_, rfl⟩

theorem hasTexts_of_compileRefs (h : compile.compileRefs refs = .ok env) : env.HasTexts :=
  hasTexts_of_forall h fun r _ => r.2.exists_text_of_compile

theorem compile_expand_of_forall (h : compile.compileRefs refs = .ok env)
    (hcheck : ∀ r ∈ refs, ∀ p : Predicate ρ, r.2.compile = .ok p →
      r.2.expand.compile ([] : Environment ρ) = .ok p.check) (t : TypeExpr) :
    (t.expand (expand.expandRef refs)).compile ([] : Environment ρ) = t.compile env := by
  refine TypeExpr.compile_expand (fun x => ?_) t
  unfold TypeExpr.expandName TypeExpr.compileName
  by_cases hfunction : x = "Function"
  · subst hfunction
    rfl
  by_cases hobject : x = "Object"
  · subst hobject
    rfl
  rw [if_neg (not_or.mpr ⟨hfunction, hobject⟩), if_neg hfunction, if_neg hobject,
    expandRef_eq_map_lookup]
  rcases find?_of_compileRefs h x with ⟨hnone, hfind⟩ | ⟨c, p, hmem, hsome, hp, hfind⟩
  · -- The name stays in the expanded tree, where it stands for a class as it does here.
    rw [hnone, hfind]
    exact (if_neg hfunction).trans (if_neg hobject)
  · rw [hsome, hfind]
    exact hcheck _ hmem p hp

/-- The check of a compiled composition is that of its expanded tree. -/
theorem compile_expand_of_compile (c : Composition) :
    ∀ p : Predicate ρ, c.compile = .ok p →
      c.expand.compile ([] : Environment ρ) = .ok p.check := by
  induction c using Composition.induction with
  | h node refs ih =>
    intro p hp
    obtain ⟨env, henv, hnode⟩ := compile_eq_ok_iff.mp hp
    obtain ⟨check, hcheck, rfl⟩ :=
      (Predicate.compile_eq_ok_iff (hasTexts_of_compileRefs henv)).mp hnode
    exact (compile_expand_of_forall henv ih node).trans hcheck

/-- Whether two compilations fail alike, or have compiled types that accept the same values:
whatever lists hold and callbacks answer, and whatever either of them does besides. -/
def AcceptAlike (x y : Except Error (Predicate ρ)) : Prop :=
  match x, y with
  | .ok p, .ok q => ∀ {m : Type → Type} [Monad m] (s : Surroundings m ρ) (v : Value),
      p.check.run s v = q.check.run s v
  | .error e, .error e' => e = e'
  | _, _ => False

/-- In an environment of compositions, a type accepts what its expanded tree accepts in none. -/
theorem acceptAlike_expand (h : compile.compileRefs refs = .ok env) (t : TypeExpr) :
    AcceptAlike (Predicate.compile env t)
      (Predicate.compile ([] : Environment ρ) (expand ⟨t, refs⟩)) := by
  have hcheck : (expand ⟨t, refs⟩).compile ([] : Environment ρ) = t.compile env :=
    compile_expand_of_forall h (fun r _ => r.2.compile_expand_of_compile) t
  rw [Predicate.compile_of_hasTexts (hasTexts_of_compileRefs h),
    Predicate.compile_of_hasTexts Environment.hasTexts_nil, hcheck]
  cases t.compile env with
  | error e => rfl
  | ok check =>
    intro m _ s v
    rfl

/-- The same names at both depths: the inner `$Ref0` is not the outer one, and the inner `T` stands
for nothing. -/
theorem acceptAlike_expand_of_shared_names :
    let item : Composition := ⟨.union [.primitive .string, .named "T"], []⟩
    let list : Composition := ⟨.array (.named "$Ref0"), [("$Ref0", item)]⟩
    let refs := [("$Ref0", list), ("T", ⟨.null, []⟩)]
    let t : TypeExpr := .tuple [.named "$Ref0", .named "T"]
    let env : Environment Value :=
      [("$Ref0", ⟨.predicate (.array (.union [.string, .nominal "T"])), .text "Array<string | T>",
        .primary⟩), ("T", ⟨.predicate .null, .text "null", .primary⟩)]
    compile.compileRefs refs = .ok env ∧
      expand ⟨t, refs⟩ = .tuple [.array (.union [.primitive .string, .named "T"]), .null] ∧
      AcceptAlike (Predicate.compile env t) (Predicate.compile [] (expand ⟨t, refs⟩)) := by
  intro item list refs t env
  have henv : compile.compileRefs refs = .ok env := rfl
  refine ⟨henv, rfl, ?_⟩
  exact acceptAlike_expand henv t

end Composition

end TypeGuard
