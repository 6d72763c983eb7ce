import TypeGuard.Proofs.Check.Composition
import TypeGuard.Proofs.TypeExpr.Subtrees

/-! # Offences

What keeps a type from being compiled. The subtrees of a type are taken in the order in which they
are written, each before its parts, and the first offence among them is the error: a type compiles
exactly if it has none.
-/

namespace TypeGuard

namespace TypeExpr

variable {ρ : Type} {env : Environment ρ}

/-- A type that cannot be compiled whatever stands inside it, and the error for it. -/
inductive Offends (env : Environment ρ) : TypeExpr → DefinitionError → Prop
  | primitive (name) : Offends env (primitive (.unknown name))
      (.unsupportedType ("PrimitiveType(" ++ name ++ ")"))
  | object {before p after} : (∀ q ∈ before, q.optional = false) → p.optional = true →
      Offends env (object (before ++ p :: after)) (.optionalField p.key)
  | named {name r className} : name ≠ "Function" → name ≠ "Object" → env.find? name = some r →
      r.target = .invalid className → Offends env (named name) (.badReference name className)
  | function (params result) :
      Offends env (function params result) (.unsupportedType "FunctionType")
  | stray (p) : Offends env (stray p) (.unsupportedType "ObjectProperty")
  | foreign (className) : Offends env (foreign className) (.unsupportedType className)
  | derived (className base) : Offends env (derived className base) (.unsupportedType className)

def FirstOffence (env : Environment ρ) (ts : List TypeExpr) (e : DefinitionError) : Prop :=
  ∃ before t after, ts = before ++ t :: after ∧ (∀ u ∈ before, ∀ d, ¬ Offends env u d) ∧
    Offends env t e

/-! ## Searching for an offence -/

def offence? (env : Environment ρ) : TypeExpr → Option DefinitionError
  | primitive kind => failure? (compilePrimitive kind : Except _ (Check ρ))
  | object ps => (firstOptional ps).map .optionalField
  | named name => failure? (compileName env name)
  | function _ _ => some (.unsupportedType "FunctionType")
  | stray _ => some (.unsupportedType "ObjectProperty")
  | foreign className => some (.unsupportedType className)
  | derived className _ => some (.unsupportedType className)
  | _ => none

theorem firstOptional_eq_some_iff {ps : List (Property TypeExpr)} {key : String} :
    firstOptional ps = some key ↔ ∃ before p after, ps = before ++ p :: after ∧
      (∀ q ∈ before, q.optional = false) ∧ p.optional = true ∧ p.key = key := by
  rw [firstOptional, Option.map_eq_some_iff]
  constructor
  · rintro ⟨p, hp, rfl⟩
    obtain ⟨hoptional, before, after, rfl, hbefore⟩ := List.find?_eq_some_iff_append.mp hp
    exact ⟨before, p, after, rfl, fun q hq => by simpa using hbefore q hq, hoptional, rfl⟩
  · rintro ⟨before, p, after, rfl, hbefore, hoptional, rfl⟩
    refine ⟨p, List.find?_eq_some_iff_append.mpr ⟨hoptional, before, after, rfl, ?_⟩, rfl⟩
    exact fun q hq => by simpa using hbefore q hq

theorem compileName_eq_error_iff {name : String} {e : DefinitionError} :
    compileName env name = .error e ↔ name ≠ "Function" ∧ name ≠ "Object" ∧
      ∃ r className, env.find? name = some r ∧ r.target = .invalid className ∧
        e = .badReference name className := by
  unfold compileName
  by_cases hfunction : name = "Function"
  · simp [hfunction]
  by_cases hobject : name = "Object"
  · simp [hobject]
  rw [if_neg hfunction, if_neg hobject]
  cases env.find? name with
  | none => simp
  | some r => cases hr : r.target <;> simp [Reference.check, hr, hfunction, hobject, eq_comm]

theorem offence?_eq_some_iff {t : TypeExpr} {e : DefinitionError} :
    offence? env t = some e ↔ Offends env t e := by
  constructor
  · intro h
    cases t with
    | primitive kind =>
      cases kind with
      | unknown name =>
        obtain rfl := Option.some.inj h
        exact .primitive name
      | _ => cases h
    | object ps =>
      obtain ⟨key, hkey, rfl⟩ := Option.map_eq_some_iff.mp h
      obtain ⟨before, p, after, rfl, hbefore, hoptional, rfl⟩ := firstOptional_eq_some_iff.mp hkey
      exact .object hbefore hoptional
    | named name =>
      obtain ⟨hfunction, hobject, r, className, hr, htarget, rfl⟩ :=
        compileName_eq_error_iff.mp (failure?_eq_some_iff.mp h)
      exact .named hfunction hobject hr htarget
    | function ps t =>
      obtain rfl := Option.some.inj h
      exact .function ps t
    | stray p =>
      obtain rfl := Option.some.inj h
      exact .stray p
    | foreign className =>
      obtain rfl := Option.some.inj h
      exact .foreign className
    | derived className base =>
      obtain rfl := Option.some.inj h
      exact .derived className base
    | _ => cases h
  · intro h
    cases h with
    | object hbefore hoptional =>
      exact Option.map_eq_some_iff.mpr
        ⟨_, firstOptional_eq_some_iff.mpr ⟨_, _, _, rfl, hbefore, hoptional, rfl⟩, rfl⟩
    | named hfunction hobject hr htarget =>
      refine failure?_eq_some_iff.mpr (compileName_eq_error_iff.mpr ?_)
      exact ⟨hfunction, hobject, _, _, hr, htarget, rfl⟩
    | _ => rfl

theorem offence?_eq_none_iff {t : TypeExpr} :
    offence? env t = none ↔ ∀ d, ¬ Offends env t d := by
  simp only [Option.eq_none_iff_forall_ne_some, ne_eq, offence?_eq_some_iff]

theorem findSome?_offence?_eq_some_iff {ts : List TypeExpr} {e : DefinitionError} :
    ts.findSome? (offence? env) = some e ↔ FirstOffence env ts e := by
  simp only [List.findSome?_eq_some_iff, offence?_eq_some_iff, offence?_eq_none_iff, FirstOffence]
  constructor
  · rintro ⟨before, t, after, hts, ht, hbefore⟩
    exact ⟨before, t, after, hts, hbefore, ht⟩
  · rintro ⟨before, t, after, hts, hbefore, ht⟩
    exact ⟨before, t, after, hts, ht, hbefore⟩

/-! ## The order of compilation -/

theorem findSome?_flatMap_subtrees {ts : List TypeExpr} {α : Type} {f g : TypeExpr → Option α}
    (h : ∀ t ∈ ts, g t = t.subtrees.findSome? f) :
    ts.findSome? g = (ts.flatMap subtrees).findSome? f := by
  induction ts with
  | nil => rfl
  | cons t ts ih =>
    obtain ⟨ht, hts⟩ := List.forall_mem_cons.mp h
    rw [List.flatMap_cons, List.findSome?_append, List.findSome?_cons, ht, ih hts]
    cases t.subtrees.findSome? f <;> rfl

theorem failure?_compileAll (env : Environment ρ) (ts : List TypeExpr) :
    failure? (compile.compileAll env ts) = ts.findSome? fun t => failure? (t.compile env) := by
  induction ts with
  | nil => rfl
  | cons t ts ih =>
    rw [compile.compileAll, failure?_map₂ List.cons, ih, List.findSome?_cons]
    cases failure? (t.compile env) <;> rfl

theorem failure?_compileFields (env : Environment ρ) (ps : List (Property TypeExpr)) :
    failure? (compile.compileFields env ps) =
      (ps.map Property.value).findSome? fun t => failure? (t.compile env) := by
  induction ps with
  | nil => rfl
  | cons p ps ih =>
    rw [compile.compileFields, failure?_map₂ fun c fields => (p.key, c) :: fields, ih,
      List.map_cons, List.findSome?_cons]
    cases failure? (p.value.compile env) <;> rfl

theorem failure?_compile_eq_children (env : Environment ρ) (t : TypeExpr) :
    failure? (t.compile env) =
      (offence? env t).or (t.children.findSome? fun u => failure? (u.compile env)) := by
  cases t with
  | nullable t | array t =>
    rw [compile, failure?_map, children, List.findSome?_cons]
    cases failure? (t.compile env) <;> rfl
  | tuple ts | union ts | intersection ts =>
    rw [compile, failure?_map, failure?_compileAll]
    rfl
  | object ps =>
    rw [compile, offence?]
    cases firstOptional ps with
    | some key => rfl
    | none =>
      simp only [failure?_map, failure?_compileFields]
      rfl
  | primitive | named => exact (Option.or_none).symm
  | _ => rfl

/-- Compiling a type fails for the first offence among its subtrees. -/
theorem failure?_compile (env : Environment ρ) (t : TypeExpr) :
    failure? (t.compile env) = t.subtrees.findSome? (offence? env) := by
  induction t using children_induction with
  | h t ih =>
    rw [failure?_compile_eq_children, findSome?_flatMap_subtrees ih, subtrees_eq_children t,
      List.findSome?_cons]
    cases offence? env t <;> rfl

theorem exists_firstOffence_iff {ts : List TypeExpr} :
    (∃ d, FirstOffence env ts d) ↔ ∃ t ∈ ts, ∃ d, Offends env t d := by
  simp only [← findSome?_offence?_eq_some_iff, ← offence?_eq_some_iff,
    ← Option.isSome_iff_exists, List.findSome?_isSome_iff]

end TypeExpr

open TypeExpr

variable {ρ : Type} {env : Environment ρ}

theorem Environment.hasTexts_of_forall_mem (h : ∀ p ∈ env, ∃ s, p.2.description = .text s) :
    env.HasTexts := by
  intro name r hr
  obtain ⟨before, after, rfl, -⟩ := List.lookup_eq_some_iff.mp hr
  exact h _ (List.mem_append_right _ List.mem_cons_self)

theorem Predicate.compile_eq_error_iff (h : env.HasTexts) {t : TypeExpr} {e : Error} :
    Predicate.compile env t = .error e ↔ ∃ d, t.compile env = .error d ∧ e = .definition d := by
  rw [Predicate.compile_of_hasTexts h]
  cases t.compile env <;> simp [Except.mapError, Except.map, eq_comm]

/-- Where references are described by texts, a type compiles unless one of its subtrees offends, and
then the first one that does is the error. -/
theorem Predicate.compile_fails_iff_offends (h : env.HasTexts) (t : TypeExpr) :
    ((∃ e, Predicate.compile env t = .error e) ↔ ∃ u ∈ t.subtrees, ∃ d, Offends env u d) ∧
      ∀ e, Predicate.compile env t = .error e ↔
        ∃ d, FirstOffence env t.subtrees d ∧ e = .definition d := by
  have herror (e : Error) : Predicate.compile env t = .error e ↔
      ∃ d, FirstOffence env t.subtrees d ∧ e = .definition d := by
    simp only [compile_eq_error_iff h, ← failure?_eq_some_iff, failure?_compile,
      findSome?_offence?_eq_some_iff]
  refine ⟨?_, herror⟩
  rw [← exists_firstOffence_iff]
  simp only [herror]
  constructor
  · rintro ⟨-, d, hd, -⟩
    exact ⟨d, hd⟩
  · rintro ⟨d, hd⟩
    exact ⟨_, d, hd, rfl⟩

/-- An object type with a field that may be missing, behind a property that is no type and before an
instance of a class derived from union types, in an array: the field is the error. Without it the
other object is. -/
theorem Predicate.compile_fails_of_optional_field :
    let special : TypeExpr := .derived "Special" (.union [.any, .foreign "int"])
    let t : TypeExpr := .tuple [.named "T", .array (.object
      [⟨"a", false, .foreign "list"⟩, ⟨"b", true, .named "U"⟩, ⟨"c", true, .any⟩]), special]
    let u : TypeExpr := .tuple [.named "T", special]
    let env : Environment Value :=
      [("T", ⟨.callback (.agent .function 0), .text "f", .primary⟩),
        ("U", ⟨.invalid "int", .text "int", .primary⟩)]
    env.HasTexts ∧ Predicate.compile env t = .error (.definition (.optionalField "b")) ∧
      Predicate.compile env u = .error (.definition (.unsupportedType "Special")) := by
  intro special t u env
  have htexts : env.HasTexts := Environment.hasTexts_of_forall_mem
    (List.forall_mem_cons.mpr ⟨⟨_, rfl⟩, List.forall_mem_singleton.mpr ⟨_, rfl⟩⟩)
  have hfirst : FirstOffence env t.subtrees (.optionalField "b") :=
    findSome?_offence?_eq_some_iff.mp rfl
  have hspecial : FirstOffence env u.subtrees (.unsupportedType "Special") :=
    findSome?_offence?_eq_some_iff.mp rfl
  exact ⟨htexts, ((compile_fails_iff_offends htexts t).2 _).mpr ⟨_, hfirst, rfl⟩,
    ((compile_fails_iff_offends htexts u).2 _).mpr ⟨_, hspecial, rfl⟩⟩

end TypeGuard
