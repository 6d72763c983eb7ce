import TypeGuard.Proofs.Callable.Growth
import TypeGuard.Proofs.Check.Desugaring
import TypeGuard.Proofs.Check.Offence
import TypeGuard.Proofs.TypeExpr.Matching

/-! # Interchangeable types

Types that match are compiled alike: both fail for the same reason, or to checks that differ in the
literals only. Equality of types takes a truth value for the number it counts as, and a check tells
them apart: equal types are interchangeable where truth values stand for truth values.
-/

namespace TypeGuard

/-! ## Literals -/

namespace Magnitude

theorem eq_of_same {m n : Magnitude} (h : m.same n = true) : m = n := by
  cases m <;> cases n <;> simp_all [same]

end Magnitude

namespace Literal

def isBoolean : Literal → Bool
  | bool _ => true
  | _ => false

theorem isBoolean_iff {x : Literal} : x.isBoolean = true ↔ ∃ b, x.accepts (.bool b) = true := by
  constructor
  · intro h
    cases x with
    | bool b => exact ⟨b, decide_eq_true rfl⟩
    | _ => cases h
  · rintro ⟨b, h⟩
    cases x with
    | bool c => rfl
    | _ => cases h

theorem same_eq_true_iff {x y : Literal} :
    x.same y = true ↔ (∃ s, y = str s ∧ x = str s) ∨
      ∃ m n, x.magnitude? = some m ∧ y.magnitude? = some n ∧ m.same n = true := by
  cases x <;> cases y <;> simp [same, magnitude?]

theorem accepts_of_magnitude {x : Literal} {m : Magnitude} (hx : x.isBoolean = false)
    (hm : x.magnitude? = some m) (v : Value) : x.accepts v = v.magnitude?.any (·.same m) := by
  cases x with
  | bool b => cases hx
  | str s => cases hm
  | int i | float x =>
    obtain rfl := Option.some.inj hm
    rfl

theorem accepts_eq_of_same {x y : Literal} (h : x.same y = true)
    (hkind : x.isBoolean = y.isBoolean) (v : Value) : x.accepts v = y.accepts v := by
  rcases same_eq_true_iff.mp h with ⟨s, rfl, rfl⟩ | ⟨m, n, hm, hn, hmn⟩
  · rfl
  obtain rfl := Magnitude.eq_of_same hmn
  cases hx : x.isBoolean with
  | false => rw [accepts_of_magnitude hx hm, accepts_of_magnitude (hkind ▸ hx) hn]
  | true =>
    cases x <;> cases y <;> try contradiction
    next b c =>
    obtain rfl : b = c := by cases b <;> cases c <;> first | rfl | cases h
    rfl

/-- Equal literals accept the same values exactly if both are truth values or neither is. -/
theorem accepts_eq_iff_of_same {x y : Literal} (h : x.same y = true) :
    (∀ v, x.accepts v = y.accepts v) ↔ x.isBoolean = y.isBoolean := by
  refine ⟨fun haccepts => ?_, accepts_eq_of_same h⟩
  rw [Bool.eq_iff_iff, isBoolean_iff, isBoolean_iff]
  simp only [haccepts]

end Literal

/-! ## Checks -/

namespace Check

variable {ρ : Type}

theorem Alike.of_forall₂ {α : Type} {r : α → α → Prop} {node : List α → Check ρ}
    (hnode : ∀ a b, r a b → ∀ before after,
      (node (before ++ a :: after)).Alike false (node (before ++ b :: after)))
    {as bs : List α} (h : List.Forall₂ r as bs) : (node as).Alike false (node bs) := by
  have hbefore (before : List α) :
      (node (before ++ as)).Alike false (node (before ++ bs)) := by
    induction h generalizing before with
    | nil => exact .refl _
    | @cons a b as bs hab _ ih =>
      have hrest := ih (before ++ [b])
      rw [List.append_assoc, List.append_assoc] at hrest
      exact (hnode a b hab before as).trans hrest
  exact hbefore []

end Check

namespace TypeExpr

variable {ρ : Type} {env env' : Environment ρ} {R : Literal → Literal → Prop}
  {K : String → String → Prop} {t u : TypeExpr}

/-! ## Failures -/

theorem map_eq_of_forall₂ {α β : Type} {f : α → β} {as bs : List α}
    (h : List.Forall₂ (fun a b => f a = f b) as bs) : as.map f = bs.map f := by
  rwa [← List.forall₂_eq_eq_eq, List.forall₂_map_left_iff, List.forall₂_map_right_iff]

theorem firstOptional_eq_of_forall₂ {ps qs : List (Property TypeExpr)}
    (h : List.Forall₂ (fun p q => p.key = q.key ∧ p.optional = q.optional) ps qs) :
    firstOptional ps = firstOptional qs := by
  induction h with
  | nil => rfl
  | @cons p q ps qs hpq _ ih =>
    simp only [firstOptional, List.find?_cons, hpq.2] at ih ⊢
    cases q.optional with
    | false => exact ih
    | true => exact congrArg some hpq.1

theorem SameRoot.offence?_eq (h : t.SameRoot R Eq u) : offence? env t = offence? env u := by
  cases h with
  | object hkeys => exact congrArg (Option.map _) (firstOptional_eq_of_forall₂ hkeys)
  | _ => rfl

/-- Types that match fail to compile alike. -/
theorem Matches.failure?_compile_eq (h : t.Matches R Eq u) (env : Environment ρ) :
    failure? (t.compile env) = failure? (u.compile env) := by
  refine Matches.induction (fun t u hroot _ ih => ?_) h
  have hchildren (ts : List TypeExpr) : (ts.findSome? fun s => failure? (s.compile env)) =
      (ts.map fun s => failure? (s.compile env)).findSome? id := by
    rw [List.findSome?_map]
    rfl
  rw [failure?_compile_eq_children, failure?_compile_eq_children, hroot.offence?_eq, hchildren,
    hchildren, map_eq_of_forall₂ ih]

theorem isPure_of_compile {c : Check ρ} (h : t.compile env = .ok c) : t.IsPure := by
  have hnone : t.subtrees.findSome? (offence? env) = none := by
    rw [← failure?_compile, h]
    rfl
  intro u hu
  have hoffence := List.findSome?_eq_none_iff.mp hnone u hu
  cases u with
  | stray | foreign | derived => cases hoffence
  | _ => simp [form, Form.types]

/-! ## Descriptions -/

theorem SameRoot.isText_eq (h : t.SameRoot R K u) (required : Level) :
    env.isText required t = env.isText required u := by
  cases h <;> rfl

theorem SameRoot.joined {P : TypeExpr → TypeExpr → Prop} (h : t.SameRoot R K u)
    (hchildren : List.Forall₂ P t.children u.children) :
    t.joined.1 = u.joined.1 ∧ List.Forall₂ P t.joined.2 u.joined.2 := by
  cases h with
  | nullable | tuple | union | intersection => exact ⟨rfl, hchildren⟩
  | function => exact ⟨rfl, (forall₂_concat_iff.mp hchildren).1⟩
  | _ => exact ⟨rfl, .nil⟩

theorem SameRoot.forall₂_written {P : TypeExpr → TypeExpr → Prop} (h : t.SameRoot R K u)
    (hchildren : List.Forall₂ P t.children u.children) :
    List.Forall₂ P t.written u.written := by
  cases h with
  | derived => exact .nil
  | _ => exact hchildren

theorem forall_mem_iff_of_forall₂ {α β : Type} {P : α → Prop} {Q : β → Prop} {as : List α}
    {bs : List β} (h : List.Forall₂ (fun a b => P a ↔ Q b) as bs) :
    (∀ a ∈ as, P a) ↔ ∀ b ∈ bs, Q b := by
  induction h with
  | nil => simp
  | cons hab _ ih => rw [List.forall_mem_cons, List.forall_mem_cons, hab, ih]

theorem Matches.joinsTexts_eq (h : t.Matches R K u) (env : Environment ρ) :
    env.joinsTexts t = env.joinsTexts u := by
  refine Matches.induction (fun t u hroot hchildren ih => ?_) h
  obtain ⟨hlevel, hjoined⟩ := hroot.joined hchildren
  have htexts : List.Forall₂
      (fun s v => env.isText u.joined.1 s = true ↔ env.isText u.joined.1 v = true)
      t.joined.2 u.joined.2 :=
    hjoined.imp fun s v ⟨hsv, _⟩ => by rw [hsv.isText_eq]
  have hparts : List.Forall₂ (fun s v => env.joinsTexts s = true ↔ env.joinsTexts v = true)
      t.written u.written :=
    (hroot.forall₂_written ih).imp fun s v hsv => by rw [hsv]
  rw [Bool.eq_iff_iff, Environment.joinsTexts_iff_written, Environment.joinsTexts_iff_written, hlevel,
    forall_mem_iff_of_forall₂ htexts, forall_mem_iff_of_forall₂ hparts]

theorem Matches.failure?_describe_eq (h : t.Matches R K u) (env : Environment ρ) :
    failure? (env.describe t) = failure? (env.describe u) := by
  by_cases hnamed : ∃ name, t = named name
  · obtain ⟨name, rfl⟩ := hnamed
    rw [h.root.eq_named_iff.mp rfl]
  · have ht : ∀ name, t ≠ named name := not_exists.mp hnamed
    have hu : ∀ name, u ≠ named name := fun name hname => ht name (h.root.eq_named_iff.mpr hname)
    rw [describe_of_ne_named ht, describe_of_ne_named hu, h.joinsTexts_eq]
    cases env.joinsTexts u <;> rfl

/-! ## Checks that do the same -/

def CompilesAlike (env env' : Environment ρ) (t u : TypeExpr) : Prop :=
  ∀ c, t.compile env = .ok c → ∃ d, u.compile env' = .ok d ∧ c.Alike false d

theorem compileAll_alike {ts us : List TypeExpr} (h : List.Forall₂ (CompilesAlike env env') ts us) :
    ∀ cs, compile.compileAll env ts = .ok cs →
      ∃ ds, compile.compileAll env' us = .ok ds ∧ List.Forall₂ (Check.Alike false) cs ds := by
  induction h with
  | nil =>
    rintro _ ⟨⟩
    exact ⟨[], rfl, .nil⟩
  | cons htu _ ih =>
    intro _ h
    obtain ⟨c, hc, cs, hcs, rfl⟩ := compileAll_cons_eq_ok_iff.mp h
    obtain ⟨d, hd, hcd⟩ := htu c hc
    obtain ⟨ds, hds, halike⟩ := ih cs hcs
    exact ⟨d :: ds, compileAll_cons_eq_ok_iff.mpr ⟨d, hd, ds, hds, rfl⟩, .cons hcd halike⟩

theorem exists_alike_of_forall₂ {node : List (Check ρ) → Check ρ}
    (hnode : ∀ c d, c.Alike false d → ∀ before after,
      (node (before ++ c :: after)).Alike false (node (before ++ d :: after)))
    {ts us : List TypeExpr} (h : List.Forall₂ (CompilesAlike env env') ts us) {c : Check ρ}
    (hc : (do return node (← compile.compileAll env ts)) = .ok c) :
    ∃ d, (do return node (← compile.compileAll env' us)) = .ok d ∧ c.Alike false d := by
  obtain ⟨cs, hcs, rfl⟩ := bind_pure_eq_ok_iff.mp hc
  obtain ⟨ds, hds, halike⟩ := compileAll_alike h cs hcs
  exact ⟨_, bind_pure_eq_ok_iff.mpr ⟨ds, hds, rfl⟩, .of_forall₂ hnode halike⟩

theorem compileFields_alike {ps qs : List (Property TypeExpr)}
    (h : List.Forall₂ (fun p q => p.key = q.key ∧ CompilesAlike env env' p.value q.value) ps qs) :
    ∀ fields, compile.compileFields env ps = .ok fields →
      ∃ fields', compile.compileFields env' qs = .ok fields' ∧
        List.Forall₂ (fun f f' => f.1 = f'.1 ∧ f.2.Alike false f'.2) fields fields' := by
  induction h with
  | nil =>
    rintro _ ⟨⟩
    exact ⟨[], rfl, .nil⟩
  | cons hpq _ ih =>
    intro _ h
    obtain ⟨hkey, hvalue⟩ := hpq
    obtain ⟨c, hc, fields, hfields, rfl⟩ := compileFields_cons_eq_ok_iff.mp h
    obtain ⟨d, hd, hcd⟩ := hvalue c hc
    obtain ⟨fields', hfields', halike⟩ := ih fields hfields
    exact ⟨_, compileFields_cons_eq_ok_iff.mpr ⟨d, hd, fields', hfields', rfl⟩,
      .cons ⟨hkey, hcd⟩ halike⟩

/-- Types that match compile to checks that do the same if their literals accept the same values
and their names are compiled alike. -/
theorem Matches.compilesAlike (h : t.Matches (fun x y => ∀ v, x.accepts v = y.accepts v) Eq u) :
    (∀ x, named x ∈ t.subtrees → compileName env x = compileName env' x) →
    CompilesAlike env env' t u := by
  intro hnames
  refine Matches.induction_of_subtrees
    (N := fun t => ∀ x, t = named x → compileName env x = compileName env' x)
    (fun t u hroot hnames ih c hc => ?_) h fun s hs x hx => hnames x (hx ▸ hs)
  cases hroot with
  | literal hxy =>
    cases hc
    refine ⟨_, rfl, ?_⟩
    intro m _ _ s _ v
    exact congrArg pure (hxy v).symm
  | nullable t u =>
    obtain ⟨c, hinner, rfl⟩ := bind_pure_eq_ok_iff.mp hc
    obtain ⟨d, hd, hcd⟩ := (List.forall₂_cons.mp ih).1 c hinner
    exact ⟨_, bind_pure_eq_ok_iff.mpr ⟨d, hd, rfl⟩, hcd.nullable⟩
  | array t u =>
    obtain ⟨c, hinner, rfl⟩ := bind_pure_eq_ok_iff.mp hc
    obtain ⟨d, hd, hcd⟩ := (List.forall₂_cons.mp ih).1 c hinner
    exact ⟨_, bind_pure_eq_ok_iff.mpr ⟨d, hd, rfl⟩, hcd.array⟩
  | tuple => exact exists_alike_of_forall₂ (fun _ _ h => h.tuple) ih hc
  | @object ps qs hkeys =>
    obtain ⟨hnone, fields, hfields, rfl⟩ := compile_object_eq_ok_iff.mp hc
    rw [children, children, List.forall₂_map_left_iff, List.forall₂_map_right_iff] at ih
    obtain ⟨fields', hfields', halike⟩ :=
      compileFields_alike (hkeys.mp (fun _ _ hkey h => ⟨hkey.1, h⟩) ih) fields hfields
    rw [firstOptional_eq_of_forall₂ hkeys] at hnone
    refine ⟨_, compile_object_eq_ok_iff.mpr ⟨hnone, fields', hfields', rfl⟩, ?_⟩
    refine .of_forall₂ ?_ halike
    rintro ⟨key, c⟩ ⟨_, d⟩ ⟨rfl, hcd⟩ before after
    exact hcd.object before after key
  | union => exact exists_alike_of_forall₂ (fun _ _ h => h.union) ih hc
  | intersection => exact exists_alike_of_forall₂ (fun _ _ h => h.intersection) ih hc
  | named name =>
    refine ⟨c, ?_, .refl c⟩
    exact (hnames name rfl).symm.trans hc
  | function | stray | foreign | derived => cases hc
  | primitive | null | void | any => exact ⟨c, hc, .refl c⟩

end TypeExpr

/-! ## Equal types -/

namespace Predicate

variable {ρ : Type}

theorem failure?_compile (env : Environment ρ) (t : TypeExpr) :
    failure? (Predicate.compile env t) =
      ((failure? (t.compile env)).map Error.definition).or (failure? (env.describe t)) := by
  rw [compile_eq_describe]
  cases t.compile env with
  | error e => rfl
  | ok c => cases env.describe t <;> rfl

/-- Equal types fail to compile for the same reason, or are compiled to checks that accept the same
values if truth values stand for truth values in them. For two literals that is the condition. -/
theorem compile_of_same {a b : TypeExpr} (h : a.same b = true) (env : Environment Value) :
    (∀ e, Predicate.compile env a = .error e ↔ Predicate.compile env b = .error e) ∧
      (a.Matches (fun x y => x.isBoolean = y.isBoolean) Eq b →
        ∀ p q, Predicate.compile env a = .ok p → Predicate.compile env b = .ok q →
          ∀ call v, p.check.test call v = q.check.test call v) ∧
      ∀ x y, a = .literal x → b = .literal y →
        ∀ p q, Predicate.compile env a = .ok p → Predicate.compile env b = .ok q →
          ((∀ call v, p.check.test call v = q.check.test call v) ↔ x.isBoolean = y.isBoolean) := by
  have hmatches := TypeExpr.matches_of_same h
  refine ⟨fun e => ?_, fun hkinds p q hp hq call v => ?_, ?_⟩
  · rw [← failure?_eq_some_iff, ← failure?_eq_some_iff, failure?_compile, failure?_compile,
      hmatches.failure?_compile_eq, hmatches.failure?_describe_eq]
  · have haccepts := hmatches.both (fun x y => Literal.accepts_eq_of_same) hkinds
    obtain ⟨d, hd, halike⟩ :=
      haccepts.compilesAlike (fun _ _ => rfl) p.check (of_compile_eq_ok hp).1
    obtain rfl := Except.ok.inj (hd.symm.trans (of_compile_eq_ok hq).1)
    exact (halike.test_eq call v).symm
  · rintro x y rfl rfl p q hp hq
    have hp : Check.literal x = p.check := Except.ok.inj (of_compile_eq_ok hp).1
    have hq : Check.literal y = q.check := Except.ok.inj (of_compile_eq_ok hq).1
    rw [← Literal.accepts_eq_iff_of_same h, ← hp, ← hq]
    constructor
    · intro htest v
      have hrun := congrArg (Run.execute · .empty) (htest (fun _ _ => throw .misuse) v)
      exact Except.ok.inj (Prod.mk.inj hrun).1
    · exact fun haccepts call v => congrArg pure (haccepts v)

/-- One and one point zero are interchangeable beside a truth value; one and the truth value that
counts as one are equal too, but no check takes one for the other. -/
theorem compile_of_same_ones :
    let one : Binary64 := .finite false 4503599627370496 (-52)
    let a : TypeExpr := .array (.union [.literal (.int 1), .literal (.bool true)])
    let b : TypeExpr := .array (.union [.literal (.float one), .literal (.bool true)])
    a.same b = true ∧ (TypeExpr.literal (.int 1)).same (.literal (.bool true)) = true ∧
      (∃ p q, Predicate.compile ([] : Environment Value) a = .ok p ∧
        Predicate.compile [] b = .ok q ∧ ∀ call v, p.check.test call v = q.check.test call v) ∧
      ∃ p q, Predicate.compile ([] : Environment Value) (.literal (.int 1)) = .ok p ∧
        Predicate.compile [] (.literal (.bool true)) = .ok q ∧
        ¬ ∀ call v, p.check.test call v = q.check.test call v := by
  intro one a b
  have hsame : a.same b = true := by decide
  have hbool : (TypeExpr.literal (.int 1)).same (.literal (.bool true)) = true := by decide
  refine ⟨hsame, hbool, ⟨_, _, rfl, rfl, ?_⟩, _, _, rfl, rfl, ?_⟩
  · refine (compile_of_same hsame []).2.1 ?_ _ _ rfl rfl
    refine .mk (.array _ _) (.cons (.mk (.union _ _) (.cons ?_ (.cons ?_ .nil))) .nil)
    · exact .mk (.literal rfl) .nil
    · exact .mk (.literal rfl) .nil
  · rw [(compile_of_same hbool []).2.2 _ _ rfl rfl _ _ rfl rfl]
    decide

end Predicate

end TypeGuard
