import TypeGuard.Template
import TypeGuard.Proofs.Check.Composition
import TypeGuard.Proofs.Grammar.Recognition
import TypeGuard.Proofs.TypeExpr.Abridgement

/-! # Descriptions

A compiled type describes itself by its text, where a name is written as the description of what it
stands for. Whether that is put in parentheses depends on its own tree, not on its expanded tree:
they are missing where a compiled type is a mere name for one that binds looser.
-/

namespace TypeGuard

/-! ## Faithful compositions -/

namespace Composition

inductive Open : Composition → Prop
  | mk {node refs} : (∀ r ∈ refs, r.1 ≠ "Function" ∧ r.1 ≠ "Object") → (∀ r ∈ refs, r.2.Open) →
      Open ⟨node, refs⟩

/-- Every name at any depth is put in parentheses where its expanded tree would be. -/
inductive Faithful : Composition → Prop
  | mk {node refs} :
      (∀ o ∈ node.names .function, ∀ c, refs.lookup o.1 = some c → c.Faithful) →
      (∀ o ∈ node.names .function, ∀ c, refs.lookup o.1 = some c →
        (c.expand.level.rank < o.2.rank ↔ c.node.level.rank < o.2.rank)) →
      Faithful ⟨node, refs⟩

theorem faithful_iff {node : TypeExpr} {refs : List (String × Composition)} :
    Faithful ⟨node, refs⟩ ↔
      ∀ o ∈ node.names .function, ∀ c, refs.lookup o.1 = some c →
        c.Faithful ∧ (c.expand.level.rank < o.2.rank ↔ c.node.level.rank < o.2.rank) := by
  constructor
  · rintro ⟨hc, hlevel⟩ o ho c hlookup
    exact ⟨hc o ho c hlookup, hlevel o ho c hlookup⟩
  · intro h
    constructor
    · intro o ho c hlookup
      exact (h o ho c hlookup).1
    · intro o ho c hlookup
      exact (h o ho c hlookup).2

theorem rank_level_expand_le (c : Composition) : c.expand.level.rank ≤ c.node.level.rank := by
  cases c
  exact TypeExpr.rank_level_expand_le _ _

/-- No name at any depth stands for a type that is a mere name itself. -/
inductive Direct : Composition → Prop
  | mk {node refs} : (∀ r ∈ refs, ∀ name, r.2.node ≠ .named name) → (∀ r ∈ refs, r.2.Direct) →
      Direct ⟨node, refs⟩

theorem mem_of_lookup_eq_some {refs : List (String × Composition)} {x : String} {c : Composition}
    (h : refs.lookup x = some c) : (x, c) ∈ refs := by
  obtain ⟨before, after, rfl, -⟩ := List.lookup_eq_some_iff.mp h
  simp

/-- Parentheses can only be missing around a mere name. -/
theorem Direct.faithful {c : Composition} (h : c.Direct) : c.Faithful := by
  induction c using Composition.induction with
  | h node refs ih =>
    obtain ⟨hnode, hrefs⟩ := h
    rw [faithful_iff]
    rintro o - c hlookup
    have hmem := mem_of_lookup_eq_some hlookup
    refine ⟨ih _ hmem (hrefs _ hmem), ?_⟩
    have hlevel : c.expand.level = c.node.level := by
      cases c
      exact TypeExpr.level_expand_of_not_named _ (hnode _ hmem)
    rw [hlevel]

variable {ρ : Type}

theorem node_of_compile {c : Composition} {p : Predicate ρ} (h : c.compile = .ok p) :
    p.node = c.node := by
  obtain ⟨env, henv, hnode⟩ := compile_eq_ok_iff.mp h
  obtain ⟨check, -, rfl⟩ := (Predicate.compile_eq_ok_iff (hasTexts_of_compileRefs henv)).mp hnode
  rfl

def AbridgedBy (c : Composition) (p : Predicate ρ) : Prop :=
  Abridges p.description.shown.toList (c.expand.render (fun _ => none) .function) c.Faithful

theorem abridges_renderName {refs : List (String × Composition)} {env : Environment ρ}
    (henv : compile.compileRefs refs = .ok env)
    (hopen : ∀ r ∈ refs, r.1 ≠ "Function" ∧ r.1 ≠ "Object")
    (ih : ∀ r ∈ refs, ∀ p : Predicate ρ, r.2.compile = .ok p → r.2.AbridgedBy p)
    (x : String) (required : Level) :
    Abridges (TypeExpr.renderName env.labels required x)
      ((TypeExpr.expandName (expand.expandRef refs) x).render (fun _ => none) required)
      (∀ c, refs.lookup x = some c → c.Faithful ∧
        (c.expand.level.rank < required.rank ↔ c.node.level.rank < required.rank)) := by
  rw [TypeExpr.renderName, Environment.labels, TypeExpr.expandName, expandRef_eq_map_lookup]
  rcases find?_of_compileRefs henv x with ⟨hnone, hfind⟩ | ⟨c, p, hmem, hsome, hp, hfind⟩
  · rw [hnone, hfind, Option.map_none, Option.map_none, Option.getD_none, ite_self]
    exact (Abridges.refl x.toList).congr (by simp)
  · -- A class derived from one of trees does not compile, so no name stands for an instance of it.
    have hpure : ∀ className base, c.expand ≠ .derived className base := by
      intro className base hderived
      have hcheck := c.compile_expand_of_compile p hp
      rw [hderived] at hcheck
      cases hcheck
    rw [hsome, hfind, if_neg (not_or.mpr (hopen _ hmem)), Option.map_some,
      Option.map_some, Option.getD_some, TypeExpr.render_none hpure]
    simp only [Predicate.reference, node_of_compile hp]
    exact ((ih _ hmem p hp).parenthesize_of_le c.rank_level_expand_le required).congr (by simp)

/-- A compiled composition is described by an abridgement of the text of its expanded tree. -/
theorem abridges_description (c : Composition) (hopen : c.Open) :
    ∀ p : Predicate ρ, c.compile = .ok p → c.AbridgedBy p := by
  induction c using Composition.induction with
  | h node refs ih =>
    intro p hp
    obtain ⟨env, henv, hnode⟩ := compile_eq_ok_iff.mp hp
    obtain ⟨check, -, rfl⟩ := (Predicate.compile_eq_ok_iff (hasTexts_of_compileRefs henv)).mp hnode
    cases hopen with
    | mk hfixed hrefs =>
      rw [AbridgedBy, Description.shown, TypeExpr.textWith, String.toList_ofList, faithful_iff]
      refine TypeExpr.abridges_render ?_ node .function
      exact abridges_renderName henv hfixed fun r hr => ih r hr (hrefs r hr)

theorem description_eq_text_iff {c : Composition} {p : Predicate ρ} (hopen : c.Open)
    (hp : c.compile = .ok p) : p.description = .text c.expand.text ↔ c.Faithful := by
  have habridges := abridges_description c hopen p hp
  obtain ⟨s, hs⟩ := exists_text_of_compile c p hp
  rw [AbridgedBy, hs, Description.shown] at habridges
  rw [hs, ← habridges.eq_iff, Description.text.injEq, TypeExpr.text, TypeExpr.textWith,
    ← String.toList_inj, String.toList_ofList]

end Composition

/-! ## Types built from templates -/

theorem World.target_of_predicate {w : World} {k : AgentKind} {id : Nat} {p : Predicate Value}
    (h : w.agent? id = some (.predicate p)) : w.target (.agent k id) = .predicate p.check := by
  simp only [World.target, h]

theorem World.target_reference (w : World) (v : Value) : (w.reference v).target = w.target v := by
  unfold World.reference
  cases w.attribute? v "description" with
  | none => rfl
  | some d => cases d <;> rfl

theorem World.reference_of_predicate {w : World} {k : AgentKind} {id : Nat} {p : Predicate Value}
    {s : String} (h : w.agent? id = some (.predicate p)) (hp : p.description = .text s) :
    w.reference (.agent k id) = p.reference := by
  have hnode : w.attribute? (.agent k id) "node" = some (.node p.node) := by
    rw [World.attribute?, h]
    rfl
  have hdescription : w.attribute? (.agent k id) "description" = some (.str s) := by
    rw [World.attribute?, h]
    exact congrArg (some ·.asValue) hp
  rw [World.reference, hnode, hdescription, World.target_of_predicate h, Predicate.reference, hp]
  rfl

theorem compileType_eq_ok_iff {w : World} {parts : List Value} {refs : List (Value × Value)}
    {r : Resolved} {p : Predicate Value} (hr : resolveTemplate w.display parts refs = .ok r) :
    compileType w parts refs = .ok p ↔
      ∃ t, TypeExpr.parse (String.ofList r.text) = .ok t ∧
        Predicate.compile (w.environment r.environment) t = .ok p := by
  simp only [compileType, parseTemplate, bind_eq_ok_iff, mapError_eq_ok_iff, pure_eq_ok_iff, hr,
    Except.ok.injEq]
  constructor
  · rintro ⟨_, ⟨_, rfl, t, ht, rfl⟩, hp⟩
    exact ⟨t, ht, hp⟩
  · rintro ⟨t, ht, hp⟩
    exact ⟨_, ⟨r, rfl, t, ht, rfl⟩, hp⟩

mutual

/-- A compiled type with its composition: it is compiled from a template in some world, in which all
that it mentions is a compiled type of this kind. -/
inductive Built : Composition → Predicate Value → Prop
  | compile {w parts refs r p cs} : resolveTemplate w.display parts refs = .ok r →
      compileType w parts refs = .ok p → BuiltAll w r.environment cs → Built ⟨p.node, cs⟩ p

inductive BuiltAll : World → List (String × Value) → List (String × Composition) → Prop
  | nil {w} : BuiltAll w [] []
  | cons {w name k id p c vs cs} : name ≠ "Function" → name ≠ "Object" →
      w.agent? id = some (.predicate p) → Built c p → BuiltAll w vs cs →
      BuiltAll w ((name, .agent k id) :: vs) ((name, c) :: cs)

end

mutual

theorem Built.compile_eq_ok {c : Composition} {p : Predicate Value} :
    Built c p → c.compile = .ok p ∧ c.Open
  | .compile hr hp hall => by
    obtain ⟨henv, hfixed, hopen⟩ := hall.compileRefs_eq_ok
    obtain ⟨t, -, hcompile⟩ := (compileType_eq_ok_iff hr).mp hp
    obtain ⟨check, -, rfl⟩ :=
      (Predicate.compile_eq_ok_iff (Composition.hasTexts_of_compileRefs henv)).mp hcompile
    exact ⟨Composition.compile_eq_ok_iff.mpr ⟨_, henv, hcompile⟩, .mk hfixed hopen⟩

theorem BuiltAll.compileRefs_eq_ok {w : World} {vs : List (String × Value)}
    {cs : List (String × Composition)} :
    BuiltAll w vs cs → Composition.compile.compileRefs cs = .ok (w.environment vs) ∧
      (∀ r ∈ cs, r.1 ≠ "Function" ∧ r.1 ≠ "Object") ∧ ∀ r ∈ cs, r.2.Open
  | .nil => by simp [Composition.compile.compileRefs, World.environment]
  | .cons hfunction hobject hid hp hrest => by
    obtain ⟨hcompile, hopen⟩ := hp.compile_eq_ok
    obtain ⟨henv, hfixed, hopens⟩ := hrest.compileRefs_eq_ok
    refine ⟨Composition.compileRefs_cons_eq_ok_iff.mpr ⟨_, hcompile, _, henv, ?_⟩,
      List.forall_mem_cons.mpr ⟨⟨hfunction, hobject⟩, hfixed⟩,
      List.forall_mem_cons.mpr ⟨hopen, hopens⟩⟩
    obtain ⟨s, hs⟩ := Composition.exists_text_of_compile _ _ hcompile
    rw [← World.reference_of_predicate hid hs]
    rfl

end

/-- A compiled type is described by the text of its expanded tree exactly if its names are put in
parentheses where they need them. -/
theorem Built.description_eq_iff {c : Composition} {p : Predicate Value} (h : Built c p) :
    p.description = .text c.expand.text ↔ c.Faithful := by
  obtain ⟨hcompile, hopen⟩ := h.compile_eq_ok
  exact Composition.description_eq_text_iff hopen hcompile

theorem Built.description_of_direct {c : Composition} {p : Predicate Value} (h : Built c p)
    (hdirect : c.Direct) : p.description = .text c.expand.text := by
  obtain ⟨hcompile, hopen⟩ := h.compile_eq_ok
  exact (Composition.description_eq_text_iff hopen hcompile).mpr hdirect.faithful

theorem Built.of_parse {w : World} {parts : List Value} {refs : List (Value × Value)} {r : Resolved}
    {t : TypeExpr} {p : Predicate Value} {cs : List (String × Composition)}
    (hr : resolveTemplate w.display parts refs = .ok r)
    (ht : TypeExpr.parse (String.ofList r.text) = .ok t)
    (hp : Predicate.compile (w.environment r.environment) t = .ok p)
    (hall : BuiltAll w r.environment cs) : Built ⟨p.node, cs⟩ p :=
  .compile hr ((compileType_eq_ok_iff hr).mpr ⟨t, ht, hp⟩) hall

/-! A union, a mere name for it, and the nullable type of that name. -/

namespace Renaming

def union : Predicate Value :=
  ⟨.union [.primitive .string, .primitive .number], .union [.string, .number],
    .text "string | number"⟩

def name : Predicate Value :=
  ⟨.named "$Ref0", union.check, union.description⟩

def nullable : Predicate Value :=
  ⟨.nullable (.named "$Ref0"), .nullable name.check, .text "?string | number"⟩

def unionHistory : Composition :=
  ⟨union.node, []⟩

def nameHistory : Composition :=
  ⟨name.node, [("$Ref0", unionHistory)]⟩

def nullableHistory : Composition :=
  ⟨nullable.node, [("$Ref0", nameHistory)]⟩

theorem built_union : Built unionHistory union := by
  have hr : resolveTemplate World.empty.display [.str "string | number"] [] =
      .ok ⟨"string | number".toList, []⟩ := rfl
  have ht : TypeExpr.parse (String.ofList "string | number".toList) = .ok union.node := by
    rw [TypeExpr.parse_eq_ok_iff_parseText]
    cbv
  exact .of_parse hr ht rfl .nil

theorem built_name : Built nameHistory name := by
  let w : World := { World.empty with agents := [.predicate union] }
  have hr : resolveTemplate w.display [.agent .predicate 0] [] =
      .ok ⟨"$Ref0".toList, [("$Ref0", .agent .predicate 0)]⟩ := rfl
  have ht : TypeExpr.parse (String.ofList "$Ref0".toList) = .ok name.node := by
    rw [TypeExpr.parse_eq_ok_iff_parseText]
    cbv
  exact .of_parse hr ht rfl (.cons (by decide) (by decide) rfl built_union .nil)

theorem built_nullable : Built nullableHistory nullable := by
  let w : World := { World.empty with agents := [.predicate name, .predicate union] }
  have hr : resolveTemplate w.display [.str "?", .agent .predicate 1] [] =
      .ok ⟨"?$Ref0".toList, [("$Ref0", .agent .predicate 1)]⟩ := rfl
  have ht : TypeExpr.parse (String.ofList "?$Ref0".toList) = .ok nullable.node := by
    rw [TypeExpr.parse_eq_ok_iff_parseText]
    cbv
  have hp : Predicate.compile (w.environment [("$Ref0", .agent .predicate 1)]) nullable.node =
      .ok nullable := by
    have henv : w.environment [("$Ref0", .agent .predicate 1)] = [("$Ref0", name.reference)] := rfl
    rw [henv]
    rfl
  exact .of_parse hr ht hp (.cons (by decide) (by decide) rfl built_name .nil)

end Renaming

/-- The nullable type is described as if it were a union. -/
theorem Built.description_of_renaming :
    Built Renaming.nullableHistory Renaming.nullable ∧
      Renaming.nullableHistory.expand.text = "?(string | number)" ∧
      ¬ Renaming.nullableHistory.Faithful := by
  have htext : Renaming.nullableHistory.expand.text = "?(string | number)" := rfl
  refine ⟨Renaming.built_nullable, htext, ?_⟩
  rw [← Built.description_eq_iff Renaming.built_nullable, htext, Renaming.nullable,
    Description.text.injEq]
  decide

end TypeGuard
