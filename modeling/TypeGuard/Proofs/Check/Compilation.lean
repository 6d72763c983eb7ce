import TypeGuard.Check.Compile
import TypeGuard.Proofs.Check.Invariance
import TypeGuard.Proofs.Check.Writing
import TypeGuard.Proofs.Except

/-! # Compilation in parts

A type compiles exactly if its parts do and no field of an object type may be missing; the checks of
the parts are the parts of its check.
-/

namespace TypeGuard

namespace TypeExpr

variable {ρ : Type} {env : Environment ρ}

theorem compile_object_eq_ok_iff {ps : List (Property TypeExpr)} {c : Check ρ} :
    (object ps).compile env = .ok c ↔ firstOptional ps = none ∧
      ∃ fields, compile.compileFields env ps = .ok fields ∧ .object fields = c := by
  rw [compile]
  cases firstOptional ps with
  | none => simp only [bind_eq_ok_iff, pure_eq_ok_iff, true_and]
  | some key => simp

theorem compileAll_cons_eq_ok_iff {t : TypeExpr} {ts : List TypeExpr} {cs : List (Check ρ)} :
    compile.compileAll env (t :: ts) = .ok cs ↔
      ∃ d, t.compile env = .ok d ∧ ∃ ds, compile.compileAll env ts = .ok ds ∧ d :: ds = cs := by
  simp only [compile.compileAll, bind_eq_ok_iff, pure_eq_ok_iff]

theorem compileFields_cons_eq_ok_iff {p : Property TypeExpr} {ps : List (Property TypeExpr)}
    {fields : List (String × Check ρ)} :
    compile.compileFields env (p :: ps) = .ok fields ↔
      ∃ d, p.value.compile env = .ok d ∧
        ∃ fields', compile.compileFields env ps = .ok fields' ∧ (p.key, d) :: fields' = fields := by
  simp only [compile.compileFields, bind_eq_ok_iff, pure_eq_ok_iff]

theorem compileAll_append_eq_ok_iff {ts us : List TypeExpr} {cs : List (Check ρ)} :
    compile.compileAll env (ts ++ us) = .ok cs ↔
      ∃ ds, compile.compileAll env ts = .ok ds ∧
        ∃ es, compile.compileAll env us = .ok es ∧ ds ++ es = cs := by
  induction ts generalizing cs with
  | nil =>
    constructor
    · intro h
      exact ⟨[], rfl, cs, h, rfl⟩
    · rintro ⟨_, ⟨⟩, _, h, rfl⟩
      exact h
  | cons t ts ih =>
    simp only [List.cons_append, compileAll_cons_eq_ok_iff, ih]
    constructor
    · rintro ⟨d, hd, _, ⟨ds, hds, es, hes, rfl⟩, rfl⟩
      exact ⟨d :: ds, ⟨d, hd, ds, hds, rfl⟩, es, hes, rfl⟩
    · rintro ⟨_, ⟨d, hd, ds, hds, rfl⟩, es, hes, rfl⟩
      exact ⟨d, hd, ds ++ es, ⟨ds, hds, es, hes, rfl⟩, rfl⟩

theorem compileFields_append_eq_ok_iff {ps qs : List (Property TypeExpr)}
    {fields : List (String × Check ρ)} :
    compile.compileFields env (ps ++ qs) = .ok fields ↔
      ∃ before, compile.compileFields env ps = .ok before ∧
        ∃ after, compile.compileFields env qs = .ok after ∧ before ++ after = fields := by
  induction ps generalizing fields with
  | nil =>
    constructor
    · intro h
      exact ⟨[], rfl, fields, h, rfl⟩
    · rintro ⟨_, ⟨⟩, _, h, rfl⟩
      exact h
  | cons p ps ih =>
    simp only [List.cons_append, compileFields_cons_eq_ok_iff, ih]
    constructor
    · rintro ⟨d, hd, _, ⟨before, hbefore, after, hafter, rfl⟩, rfl⟩
      exact ⟨_ :: before, ⟨d, hd, before, hbefore, rfl⟩, after, hafter, rfl⟩
    · rintro ⟨_, ⟨d, hd, before, hbefore, rfl⟩, after, hafter, rfl⟩
      exact ⟨d, hd, before ++ after, ⟨before, hbefore, after, hafter, rfl⟩, rfl⟩

theorem compileAll_eq_ok_iff {ts : List TypeExpr} {cs : List (Check ρ)} :
    compile.compileAll env ts = .ok cs ↔
      List.Forall₂ (fun t c => t.compile env = .ok c) ts cs := by
  induction ts generalizing cs with
  | nil => simp [compile.compileAll, eq_comm]
  | cons t ts ih =>
    rw [compileAll_cons_eq_ok_iff, List.forall₂_cons_left_iff]
    simp only [ih]
    constructor
    · rintro ⟨d, hd, ds, hds, rfl⟩
      exact ⟨d, ds, hd, hds, rfl⟩
    · rintro ⟨d, ds, hd, hds, rfl⟩
      exact ⟨d, hd, ds, hds, rfl⟩

theorem compileFields_eq_ok_iff {ps : List (Property TypeExpr)}
    {fields : List (String × Check ρ)} :
    compile.compileFields env ps = .ok fields ↔
      List.Forall₂ (fun p f => p.key = f.1 ∧ p.value.compile env = .ok f.2) ps fields := by
  induction ps generalizing fields with
  | nil => simp [compile.compileFields, eq_comm]
  | cons p ps ih =>
    rw [compileFields_cons_eq_ok_iff, List.forall₂_cons_left_iff]
    simp only [ih]
    constructor
    · rintro ⟨d, hd, rest, hrest, rfl⟩
      exact ⟨_, rest, ⟨rfl, hd⟩, hrest, rfl⟩
    · rintro ⟨⟨key, d⟩, rest, ⟨rfl, hd⟩, hrest, rfl⟩
      exact ⟨d, hd, rest, hrest, rfl⟩

theorem forall₂_of_compileAll {R : TypeExpr → Check ρ → Prop} {ts : List TypeExpr}
    {cs : List (Check ρ)} (hR : ∀ t ∈ ts, ∀ c, t.compile env = .ok c → R t c)
    (h : compile.compileAll env ts = .ok cs) : List.Forall₂ R ts cs := by
  have hmem := (List.forall₂_and_left ts cs).mpr ⟨hR, compileAll_eq_ok_iff.mp h⟩
  exact hmem.imp fun t c htc => htc.1 c htc.2

theorem forall₂_of_compileFields {R : Property TypeExpr → Check ρ → Prop}
    {ps : List (Property TypeExpr)} {fields : List (String × Check ρ)}
    (hR : ∀ p ∈ ps, ∀ c, p.value.compile env = .ok c → R p c)
    (h : compile.compileFields env ps = .ok fields) :
    List.Forall₂ (fun p f => p.key = f.1 ∧ R p f.2) ps fields := by
  have hmem := (List.forall₂_and_left ps fields).mpr ⟨hR, compileFields_eq_ok_iff.mp h⟩
  exact hmem.imp fun p f hpf => ⟨hpf.2.1, hpf.1 f.2 hpf.2.2⟩

theorem forall_mem_of_compileAll {P : Check ρ → Prop}
    {ts : List TypeExpr} {cs : List (Check ρ)}
    (hP : ∀ t ∈ ts, ∀ c, t.compile env = .ok c → P c)
    (h : compile.compileAll env ts = .ok cs) : ∀ c ∈ cs, P c := by
  have hparts : List.Forall₂ (fun _ c => P c ∧ True) ts cs :=
    forall₂_of_compileAll (fun t ht c hc => ⟨hP t ht c hc, trivial⟩) h
  exact ((List.forall₂_and_left _ _).mp hparts.flip).1

theorem forall_mem_of_compileFields {P : Check ρ → Prop}
    {ps : List (Property TypeExpr)} {fields : List (String × Check ρ)}
    (hP : ∀ p ∈ ps, ∀ c, p.value.compile env = .ok c → P c)
    (h : compile.compileFields env ps = .ok fields) : ∀ f ∈ fields, P f.2 := by
  have hparts : List.Forall₂ (fun p f => P f.2 ∧ p.key = f.1) ps fields :=
    (forall₂_of_compileFields (R := fun _ c => P c) hP h).imp fun _ _ hpf => hpf.symm
  exact ((List.forall₂_and_left _ _).mp hparts.flip).1

/-- What spreads from the parts of a check holds of the check of a type if it holds of the checks of
the names in it. -/
theorem forall_of_compile {P : Check ρ → Prop} (hP : Check.Spreads P) (t : TypeExpr) :
    (∀ x, named x ∈ t.subtrees → ∀ c, compileName env x = .ok c → P c) →
    ∀ c, t.compile env = .ok c → P c := by
  induction t using children_induction with
  | h t ih =>
    intro hnames c hc
    have hchild : ∀ u ∈ t.children, ∀ d, u.compile env = .ok d → P d := fun u hu =>
      ih u hu fun x hx => hnames x (subtrees_subset_of_mem_children hu hx)
    cases t with
    | named name => exact hnames name (mem_subtrees_self _) c hc
    | nullable t =>
      obtain ⟨d, hd, rfl⟩ := bind_pure_eq_ok_iff.mp hc
      exact hP.nullable (hchild t List.mem_cons_self d hd)
    | array t =>
      obtain ⟨d, hd, rfl⟩ := bind_pure_eq_ok_iff.mp hc
      exact hP.array (hchild t List.mem_cons_self d hd)
    | tuple ts =>
      obtain ⟨cs, hcs, rfl⟩ := bind_pure_eq_ok_iff.mp hc
      exact hP.tuple (forall_mem_of_compileAll hchild hcs)
    | object ps =>
      obtain ⟨-, fields, hfields, rfl⟩ := compile_object_eq_ok_iff.mp hc
      exact hP.object (forall_mem_of_compileFields
        (fun p hp => hchild p.value (List.mem_map_of_mem hp)) hfields)
    | union ts =>
      obtain ⟨cs, hcs, rfl⟩ := bind_pure_eq_ok_iff.mp hc
      exact hP.union (forall_mem_of_compileAll hchild hcs)
    | intersection ts =>
      obtain ⟨cs, hcs, rfl⟩ := bind_pure_eq_ok_iff.mp hc
      exact hP.intersection (forall_mem_of_compileAll hchild hcs)
    | primitive kind =>
      cases kind <;> cases hc <;> exact hP.plain ⟨_, fun _ _ _ _ => rfl⟩
    | literal | null | void | any =>
      cases hc
      exact hP.plain ⟨_, fun _ _ _ _ => rfl⟩
    | function | stray | foreign | derived => cases hc

theorem firstOptional_cons_eq_none_iff {p : Property TypeExpr} {ps : List (Property TypeExpr)} :
    firstOptional (p :: ps) = none ↔ p.optional = false ∧ firstOptional ps = none := by
  simp [firstOptional]

theorem firstOptional_append_eq_none_iff {ps qs : List (Property TypeExpr)} :
    firstOptional (ps ++ qs) = none ↔ firstOptional ps = none ∧ firstOptional qs = none := by
  simp only [firstOptional, Option.map_eq_none_iff, List.find?_append, Option.or_eq_none_iff]

theorem compileAll_around {ts vs : List TypeExpr} {t : TypeExpr} {cs : List (Check ρ)}
    (h : compile.compileAll env (ts ++ t :: vs) = .ok cs) :
    ∃ before c after, cs = before ++ c :: after ∧ t.compile env = .ok c ∧
      ∀ u d, u.compile env = .ok d →
        compile.compileAll env (ts ++ u :: vs) = .ok (before ++ d :: after) := by
  obtain ⟨before, hbefore, _, hrest, rfl⟩ := compileAll_append_eq_ok_iff.mp h
  obtain ⟨c, hc, after, hafter, rfl⟩ := compileAll_cons_eq_ok_iff.mp hrest
  refine ⟨before, c, after, rfl, hc, fun u d hd => ?_⟩
  refine compileAll_append_eq_ok_iff.mpr ⟨before, hbefore, d :: after, ?_, rfl⟩
  exact compileAll_cons_eq_ok_iff.mpr ⟨d, hd, after, hafter, rfl⟩

theorem compile_object_around {ps qs : List (Property TypeExpr)} {key : String} {optional : Bool}
    {t : TypeExpr} {c : Check ρ}
    (h : (object (ps ++ ⟨key, optional, t⟩ :: qs)).compile env = .ok c) :
    ∃ before d after, c = .object (before ++ (key, d) :: after) ∧ t.compile env = .ok d ∧
      ∀ u e, u.compile env = .ok e → (object (ps ++ ⟨key, optional, u⟩ :: qs)).compile env =
        .ok (.object (before ++ (key, e) :: after)) := by
  obtain ⟨hnone, fields, hfields, rfl⟩ := compile_object_eq_ok_iff.mp h
  obtain ⟨before, hbefore, _, hrest, rfl⟩ := compileFields_append_eq_ok_iff.mp hfields
  obtain ⟨d, hd, after, hafter, rfl⟩ := compileFields_cons_eq_ok_iff.mp hrest
  refine ⟨before, d, after, rfl, hd, fun u e he => ?_⟩
  refine compile_object_eq_ok_iff.mpr ⟨?_, _, ?_, rfl⟩
  · simpa only [firstOptional_append_eq_none_iff, firstOptional_cons_eq_none_iff] using hnone
  · refine compileFields_append_eq_ok_iff.mpr ⟨before, hbefore, (key, e) :: after, ?_, rfl⟩
    exact compileFields_cons_eq_ok_iff.mpr ⟨e, he, after, hafter, rfl⟩

end TypeExpr

/-! ## Compiled types -/

theorem Predicate.compile_eq_ok {ρ : Type} {env : Environment ρ} {t : TypeExpr} {c : Check ρ}
    {d : Description} (hc : t.compile env = .ok c) (hd : env.describe t = .ok d) :
    Predicate.compile env t = .ok ⟨t, c, d⟩ := by
  simp [compile_eq_describe, hc, hd, Except.mapError, bind, Except.bind, pure, Except.pure]

theorem Predicate.of_compile_eq_ok {ρ : Type} {env : Environment ρ} {t : TypeExpr}
    {p : Predicate ρ} (h : Predicate.compile env t = .ok p) :
    t.compile env = .ok p.check ∧ env.describe t = .ok p.description := by
  obtain ⟨check, hcheck, h⟩ := bind_eq_ok_iff.mp h
  obtain ⟨description, hdescription, h⟩ := bind_eq_ok_iff.mp h
  obtain rfl := pure_eq_ok_iff.mp h
  exact ⟨mapError_eq_ok_iff.mp hcheck, hdescription⟩

theorem Predicate.node_of_compile_eq_ok {ρ : Type} {env : Environment ρ} {t : TypeExpr}
    {p : Predicate ρ} (h : Predicate.compile env t = .ok p) : p.node = t := by
  obtain ⟨_, -, h⟩ := bind_eq_ok_iff.mp h
  obtain ⟨_, -, h⟩ := bind_eq_ok_iff.mp h
  rw [← pure_eq_ok_iff.mp h]

end TypeGuard
