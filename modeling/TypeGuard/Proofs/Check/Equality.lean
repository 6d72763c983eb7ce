import TypeGuard.Proofs.Check.Description
import TypeGuard.Proofs.Check.Interchange
import TypeGuard.Proofs.Template.Splicing
import TypeGuard.Proofs.TypeExpr.Readability

/-! # Equal compiled types

Compiled types are equal if their trees and their descriptions are. Neither shows what a class or a
function does, only its name. Equal compiled types accept the same values if the names in their trees
stand for the same references, and also if each name stands for one thing wherever it occurs, however
deep: then the description decides which tree is meant.
-/

namespace TypeGuard

open TypeExpr Grammar

/-! ## The same references -/

namespace Literal

/-- Of the literals that are no texts, truth values are written in letters that no number has. -/
theorem isBoolean_iff_exists_char {x : Literal} {m : Magnitude} (hm : x.magnitude? = some m) :
    x.isBoolean = true ↔ ∃ c ∈ x.chars, ¬ IsNumberChar c := by
  cases x with
  | bool b => cases b <;> simp [isBoolean, chars, IsNumberChar]
  | str s => cases hm
  | int i => simpa [isBoolean, chars] using isNumberChar_intChars i
  | float x => simpa [isBoolean, chars] using x.isNumberChar_chars

theorem accepts_eq_of_chars_eq {x y : Literal} (h : x.same y = true) (hchars : x.chars = y.chars) :
    ∀ v, x.accepts v = y.accepts v := by
  rw [accepts_eq_iff_of_same h]
  rcases same_eq_true_iff.mp h with ⟨s, rfl, rfl⟩ | ⟨m, n, hm, hn, -⟩
  · rfl
  · rw [Bool.eq_iff_iff, isBoolean_iff_exists_char hm, isBoolean_iff_exists_char hn, hchars]

end Literal

namespace Predicate

theorem text_eq_of_same {p q : Predicate Value} (h : p.same q = true) {s t : String}
    (hp : p.description = .text s) (hq : q.description = .text t) : s = t := by
  have hdescription := (Bool.and_eq_true_iff.mp h).2
  rw [hp, hq] at hdescription
  exact of_decide_eq_true hdescription

theorem description_of_ne_named {ρ : Type} {env : Environment ρ} {p : Predicate ρ}
    (hp : Predicate.compile env p.node = .ok p) (h : ∀ name, p.node ≠ named name) :
    p.description = .text (p.node.textWith env.labels) := by
  have hdescribe := (of_compile_eq_ok hp).2
  rw [describe_of_ne_named h] at hdescribe
  split at hdescribe
  · exact (Except.ok.inj hdescribe).symm
  · cases hdescribe

theorem matches_of_same {env env' : Environment Value} {p q : Predicate Value}
    (h : p.same q = true) (hp : Predicate.compile env p.node = .ok p)
    (hq : Predicate.compile env' q.node = .ok q)
    (hrefs : ∀ x, named x ∈ p.node.subtrees → env.find? x = env'.find? x) :
    p.node.Matches (fun x y => ∀ v, x.accepts v = y.accepts v) Eq q.node := by
  have hmatches := TypeExpr.matches_of_same (Bool.and_eq_true_iff.mp h).1
  by_cases hnamed : ∃ x, p.node = named x
  · obtain ⟨x, hx⟩ := hnamed
    rw [hx, hmatches.root.eq_named_iff.mp hx]
    exact .mk (.named x) .nil
  · have hp' : ∀ x, p.node ≠ named x := not_exists.mp hnamed
    have hq' : ∀ x, q.node ≠ named x := fun x hx => hp' x (hmatches.root.eq_named_iff.mpr hx)
    have htext := text_eq_of_same h (description_of_ne_named hp hp') (description_of_ne_named hq hq')
    have hlabels : ∀ x, named x ∈ p.node.subtrees → env.labels x = env'.labels x := by
      intro x hx
      rw [Environment.labels, Environment.labels, hrefs x hx]
    have hrender := congrArg (· ++ []) (String.ofList_inj.mp htext)
    have hpure := isPure_of_compile (of_compile_eq_ok hp).1
    obtain ⟨hchars, -⟩ :=
      hmatches.textsTell hpure hlabels .function [] [] closed_nil closed_nil hrender
    exact hchars.both (fun x y hxy _ => Literal.accepts_eq_of_chars_eq hxy.1 hxy.2) hchars

end Predicate

/-! ## One meaning for each name -/

theorem Reference.check_of_check {ρ : Type} {r : Reference ρ} {name : String} {c : Check ρ}
    (h : r.check name = .ok c) (name' : String) : r.check name' = .ok c := by
  obtain ⟨target, description, level⟩ := r
  cases target with
  | invalid => cases h
  | _ => exact h

namespace TypeExpr

variable {ρ : Type} {env names : Environment ρ} {f : String → Option TypeExpr}

theorem compile_expand_eq_ok (t : TypeExpr) :
    (∀ x, named x ∈ t.subtrees → ∀ c, compileName env x = .ok c →
      (expandName f x).compile names = .ok c) →
    ∀ c, t.compile env = .ok c → (t.expand f).compile names = .ok c := by
  induction t using children_induction with
  | h t ih =>
    intro hnames c hc
    have hchild : ∀ u ∈ t.children, ∀ d, u.compile env = .ok d →
        (u.expand f).compile names = .ok d := fun u hu =>
      ih u hu fun x hx => hnames x (subtrees_subset_of_mem_children hu hx)
    have hall {ts : List TypeExpr} (hts : ∀ u ∈ ts, u ∈ t.children) {cs : List (Check ρ)}
        (hcs : compile.compileAll env ts = .ok cs) :
        compile.compileAll names (expand.expandAll f ts) = .ok cs := by
      rw [expandAll_eq_map, compileAll_eq_ok_iff, List.forall₂_map_left_iff]
      exact forall₂_of_compileAll (fun u hu => hchild u (hts u hu)) hcs
    cases t with
    | named x => exact hnames x (mem_subtrees_self _) c hc
    | nullable t | array t =>
      obtain ⟨d, hd, rfl⟩ := bind_pure_eq_ok_iff.mp hc
      exact bind_pure_eq_ok_iff.mpr ⟨d, hchild t List.mem_cons_self d hd, rfl⟩
    | tuple ts | union ts | intersection ts =>
      obtain ⟨cs, hcs, rfl⟩ := bind_pure_eq_ok_iff.mp hc
      exact bind_pure_eq_ok_iff.mpr ⟨cs, hall (fun u hu => hu) hcs, rfl⟩
    | object ps =>
      obtain ⟨hnone, fields, hfields, rfl⟩ := compile_object_eq_ok_iff.mp hc
      refine compile_object_eq_ok_iff.mpr ⟨?_, fields, ?_, rfl⟩
      · rwa [firstOptional_expandValues]
      · rw [expandValues_eq_map, compileFields_eq_ok_iff, List.forall₂_map_left_iff]
        have hps := forall₂_of_compileFields
          (fun p hp => hchild p.value (List.mem_map_of_mem hp)) hfields
        exact hps
    | function | stray | foreign | derived => cases hc
    | literal | primitive | null | void | any => exact hc

theorem Grammatical.expand {t : TypeExpr} (h : t.Grammatical)
    (hf : ∀ x u, f x = some u → u.Grammatical) : (t.expand f).Grammatical := by
  have hall {ts : List TypeExpr} (hts : ∀ t ∈ ts, (t.expand f).Grammatical) :
      ∀ t ∈ expand.expandAll f ts, t.Grammatical := by
    rw [expandAll_eq_map]
    exact List.forall_mem_map.mpr hts
  induction h with
  | literal hv => exact .literal hv
  | keyword hk => cases hk <;> exact .keyword (by constructor)
  | @named name hname =>
    rw [TypeExpr.expand, expandName]
    split
    · exact .named hname
    · cases hx : f name with
      | none => exact .named hname
      | some u => exact hf name u hx
  | nullable _ ih => exact .nullable ih
  | array _ ih => exact .array ih
  | tuple _ ih => exact .tuple (hall ih)
  | object _ ih =>
    refine .object ?_
    rw [expandValues_eq_map]
    exact List.forall_mem_map.mpr ih
  | union hlen _ ih =>
    refine .union ?_ (hall ih)
    rwa [expandAll_eq_map, List.length_map]
  | intersection hlen _ ih =>
    refine .intersection ?_ (hall ih)
    rwa [expandAll_eq_map, List.length_map]
  | function _ _ ihps iht => exact .function (hall ihps) iht

end TypeExpr

mutual

/-- A compiled type with its expanded tree, where every name has one meaning. It is compiled from a
template in some world; what the template mentions is a compiled type of this kind, or something
that is described by the name of which it is the meaning. A name that stands for nothing has no
meaning: it is that of a class. -/
inductive Expands (names : Environment Value) : Predicate Value → TypeExpr → Prop
  | compile {w parts refs r p ts} : resolveTemplate w.display parts refs = .ok r →
      compileType w parts refs = .ok p → ExpandsAll names w r.environment ts →
      (∀ x, named x ∈ p.node.subtrees → r.environment.lookup x = none → names.find? x = none) →
      Expands names p (p.node.expand fun x => ts.lookup x)

inductive ExpandsAll (names : Environment Value) :
    World → List (String × Value) → List (String × TypeExpr) → Prop
  | nil {w} : ExpandsAll names w [] []
  | predicate {w x k id p t vs ts} : w.agent? id = some (.predicate p) → Expands names p t →
      ExpandsAll names w vs ts → ExpandsAll names w ((x, .agent k id) :: vs) ((x, t) :: ts)
  | name {w x v s vs ts} : (w.reference v).description = .text s → IsName s → s ≠ "Function" →
      s ≠ "Object" → names.find? s = some (w.reference v) →
      ExpandsAll names w vs ts → ExpandsAll names w ((x, v) :: vs) ((x, named s) :: ts)

end

section Expands

variable {names : Environment Value}

theorem compileName_of_ne {ρ : Type} {env : Environment ρ} {x : String} (hfunction : x ≠ "Function")
    (hobject : x ≠ "Object") :
    compileName env x = match env.find? x with
      | some r => r.check x
      | none => .ok (.nominal x) :=
  (if_neg hfunction).trans (if_neg hobject)

/-- A tree that can replace a name of a value: it compiles to what the value tests. -/
def Replaces (names : Environment Value) (w : World) (v : Value) (t : TypeExpr) : Prop :=
  t.Grammatical ∧ ∀ x c, (w.reference v).check x = .ok c → t.compile names = .ok c

def ReplacesAll (names : Environment Value) (w : World) (vs : List (String × Value))
    (ts : List (String × TypeExpr)) : Prop :=
  ∀ x, vs.lookup x = none ∧ ts.lookup x = none ∨
    ∃ v t, vs.lookup x = some v ∧ ts.lookup x = some t ∧ Replaces names w v t

theorem ReplacesAll.cons {w : World} {vs : List (String × Value)} {ts : List (String × TypeExpr)}
    {v : Value} {t : TypeExpr} (hv : Replaces names w v t) (h : ReplacesAll names w vs ts)
    (x : String) : ReplacesAll names w ((x, v) :: vs) ((x, t) :: ts) := by
  intro y
  rw [List.lookup_cons, List.lookup_cons]
  cases y == x with
  | true => exact .inr ⟨v, t, rfl, rfl, hv⟩
  | false => exact h y

/-- What replaces a name compiles to the check of the name. -/
theorem ReplacesAll.compile_expandName {w : World} {vs : List (String × Value)}
    {ts : List (String × TypeExpr)} (h : ReplacesAll names w vs ts) {x : String} {c : Check Value}
    (hunbound : vs.lookup x = none → names.find? x = none)
    (hc : compileName (w.environment vs) x = .ok c) :
    (expandName (fun x => ts.lookup x) x).compile names = .ok c := by
  by_cases hfunction : x = "Function"
  · subst hfunction
    exact hc
  by_cases hobject : x = "Object"
  · subst hobject
    exact hc
  rw [expandName, if_neg (not_or.mpr ⟨hfunction, hobject⟩)]
  rw [compileName_of_ne hfunction hobject, w.find?_environment] at hc
  rcases h x with ⟨hvs, hts⟩ | ⟨v, u, hvs, hts, -, hcompile⟩
  · -- The name is that of a class on both sides.
    rw [hvs] at hc
    rw [hts]
    refine (compileName_of_ne hfunction hobject).trans ?_
    rw [hunbound hvs]
    exact hc
  · rw [hvs] at hc
    rw [hts]
    exact hcompile x c hc

theorem ReplacesAll.expand {w : World} {vs : List (String × Value)} {ts : List (String × TypeExpr)}
    (h : ReplacesAll names w vs ts) {t : TypeExpr} {c : Check Value} (ht : t.Grammatical)
    (hunbound : ∀ x, named x ∈ t.subtrees → vs.lookup x = none → names.find? x = none)
    (hc : t.compile (w.environment vs) = .ok c) :
    (t.expand fun x => ts.lookup x).Grammatical ∧
      (t.expand fun x => ts.lookup x).compile names = .ok c := by
  constructor
  · refine ht.expand fun x u hu => ?_
    rcases h x with ⟨-, hnone⟩ | ⟨v, u', -, hsome, hv⟩
    · rw [hnone] at hu
      cases hu
    · obtain rfl := Option.some.inj (hsome.symm.trans hu)
      exact hv.1
  · exact compile_expand_eq_ok t (fun x hx d => h.compile_expandName (hunbound x hx)) c hc

mutual

theorem Expands.compile_eq_ok {p : Predicate Value} {t : TypeExpr} :
    Expands names p t → t.Grammatical ∧ t.compile names = .ok p.check
  | .compile hr hp hall hunbound => by
    obtain ⟨tree, hparse, hcompile⟩ := (compileType_eq_ok_iff hr).mp hp
    obtain ⟨rest, hphrase, -⟩ := parse_eq_ok_iff.mp hparse
    have hgrammatical : tree.Grammatical := hphrase.denotes
    rw [Predicate.node_of_compile_eq_ok hcompile] at hunbound ⊢
    exact hall.replacesAll.expand hgrammatical hunbound (Predicate.of_compile_eq_ok hcompile).1

theorem ExpandsAll.replacesAll {w : World} {vs : List (String × Value)}
    {ts : List (String × TypeExpr)} : ExpandsAll names w vs ts → ReplacesAll names w vs ts
  | .nil => fun x => .inl ⟨rfl, rfl⟩
  | .predicate hid hp hrest => by
    obtain ⟨hgrammatical, hcompile⟩ := hp.compile_eq_ok
    refine hrest.replacesAll.cons ⟨hgrammatical, fun x c hc => ?_⟩ _
    rw [Reference.check, World.target_reference, World.target_of_predicate hid] at hc
    cases hc
    exact hcompile
  | .name hdescription hname hfunction hobject hmeaning hrest => by
    refine hrest.replacesAll.cons ⟨.named hname, fun x c hc => ?_⟩ _
    refine (compileName_of_ne hfunction hobject).trans ?_
    rw [hmeaning]
    exact Reference.check_of_check hc _

end

end Expands

/-! ## Equal compiled types -/

theorem Expands.of_parse {names : Environment Value} {w : World} {parts : List Value}
    {refs : List (Value × Value)} {r : Resolved} {t : TypeExpr} {p : Predicate Value}
    {ts : List (String × TypeExpr)} (hr : resolveTemplate w.display parts refs = .ok r)
    (ht : TypeExpr.parse (String.ofList r.text) = .ok t)
    (hp : Predicate.compile (w.environment r.environment) t = .ok p)
    (hall : ExpandsAll names w r.environment ts)
    (hunbound : ∀ x, named x ∈ p.node.subtrees → r.environment.lookup x = none →
      names.find? x = none) :
    compileType w parts refs = .ok p ∧ Expands names p (p.node.expand fun x => ts.lookup x) := by
  have hcompile := (compileType_eq_ok_iff hr).mpr ⟨t, ht, hp⟩
  exact ⟨hcompile, .compile hr hcompile hall hunbound⟩

/-! Two classes of one name, and a type that mentions the first one in two ways. -/

namespace Namesakes

def first : ClassInfo :=
  ⟨.defined 0, "A", [.defined 0, .builtin .object], .object, none, none, true, none, none, none⟩

def second : ClassInfo :=
  ⟨.defined 1, "A", [.defined 1, .builtin .object], .object, none, none, true, none, none, none⟩

def world : World :=
  { World.empty with classes := 2, instances := 1 }

def item : Value :=
  .inst 0 first none []

def names : Environment Value :=
  [("A", ⟨.class first, .text "A", .primary⟩)]

def nullable : Predicate Value :=
  ⟨.nullable (.named "$Ref0"), .nullable (.tuple [.instanceOf first]), .text "?[A]"⟩

end Namesakes

end TypeGuard
