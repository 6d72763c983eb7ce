import TypeGuard.Proofs.Check.Meaning
import TypeGuard.Proofs.TypeExpr.Frame

/-! # Widening

A type is widened by edits that only loosen it, anywhere in its tree: a part becomes nullable, a
union gets members, an object type loses properties, and so on. What the type admits is admitted by
the widened type. Where the references of an environment are pure, so that asking them answers and
changes nothing that matters, the same is true of what checks accept.
-/

namespace TypeGuard

def Literal.primitive : Literal → Primitive
  | bool _ => .boolean
  | str _ => .string
  | int _ => .number
  | float _ => .number

theorem Value.text?_of_string? {v : Value} {s : String} (h : v.string? = some s) :
    v.text? = some s := by
  unfold string? at h
  unfold text?
  cases hcore : v.core <;> rw [hcore] at h <;> cases h
  rfl

namespace TypeExpr

/-- A type that is widened to another by any number of edits. -/
inductive Widens : TypeExpr → TypeExpr → Prop
  | refl (t) : Widens t t
  | trans {t u v} : Widens t u → Widens u v → Widens t v
  | any (t) : Widens t any
  | nullable (t) : Widens t (nullable t)
  | null (t) : Widens null (nullable t)
  | void (t) : Widens void (nullable t)
  | member {t ts} : t ∈ ts → Widens t (union ts)
  | union {ts us} : ts.Subperm us → Widens (union ts) (union us)
  | intersection {ts us} : us.Sublist ts → Widens (intersection ts) (intersection us)
  | operand {t ts} : t ∈ ts → Widens (intersection ts) t
  | object {ps qs : List (Property TypeExpr)} : qs.Sublist ps → Widens (object ps) (object qs)
  | structured (ps) : Widens (object ps) (named "Object")
  | literal (l) : Widens (literal l) (primitive l.primitive)
  | tuple (ts) : Widens (tuple ts) (array (union ts))
  | single (t) : Widens (tuple [t]) (array t)
  | frame (f : Frame) {t u} : Widens t u → Widens (f.fill t) (f.fill u)

section Admits

variable {items : Nat → List Value} {holds : String → Value → Prop} {t u : TypeExpr}

theorem admits_primitive_of_accepts {l : Literal} {v : Value} (h : l.accepts v = true) :
    (primitive l.primitive).Admits items holds v := by
  cases l with
  | bool b =>
    cases v with
    | bool c => exact .boolean rfl
    | _ => cases h
  | str s =>
    have htext : v.text? = some s := v.text?_of_string? (of_decide_eq_true h)
    exact .string (Option.isSome_of_eq_some htext)
  | int | float => exact .number (Option.isSome_of_any h)

theorem forall₂_admits_around (h : ∀ v, t.Admits items holds v → u.Admits items holds v)
    {before after : List TypeExpr} {vs : List Value}
    (hvs : List.Forall₂ (Admits items holds) (before ++ t :: after) vs) :
    List.Forall₂ (Admits items holds) (before ++ u :: after) vs := by
  induction before generalizing vs with
  | nil =>
    obtain ⟨v, vs, hv, hafter, rfl⟩ := List.forall₂_cons_left_iff.mp hvs
    exact .cons (h v hv) hafter
  | cons s before ih =>
    obtain ⟨v, vs, hv, hrest, rfl⟩ := List.forall₂_cons_left_iff.mp hvs
    exact .cons hv (ih hrest)

/-- A type admits no less when one of its parts does. -/
theorem Admits.fill (f : Frame) (h : ∀ v, t.Admits items holds v → u.Admits items holds v) {v : Value}
    (hv : (f.fill t).Admits items holds v) : (f.fill u).Admits items holds v := by
  cases f with
  | nullable => exact admits_nullable_iff.mpr ((admits_nullable_iff.mp hv).imp_right (h v))
  | array =>
    obtain ⟨vs, hitems, hvs⟩ := admits_array_iff.mp hv
    exact .array hitems fun x hx => h x (hvs x hx)
  | tuple before after =>
    obtain ⟨vs, hitems, hvs⟩ := admits_tuple_iff.mp hv
    exact .tuple hitems (forall₂_admits_around h hvs)
  | object before key optional after =>
    obtain ⟨hobject, hps⟩ := admits_object_iff.mp hv
    refine .object hobject ?_
    simp only [List.forall_mem_append, List.forall_mem_cons] at hps ⊢
    exact ⟨hps.1, h _ hps.2.1, hps.2.2⟩
  | union before after =>
    obtain ⟨s, hs, hadmits⟩ := admits_union_iff.mp hv
    rcases List.mem_append.mp hs with hbefore | hs
    · exact .union (List.mem_append_left _ hbefore) hadmits
    · rcases List.mem_cons.mp hs with rfl | hafter
      · exact .union (List.mem_append_right _ List.mem_cons_self) (h v hadmits)
      · exact .union (List.mem_append_right _ (List.mem_cons_of_mem _ hafter)) hadmits
  | intersection before after =>
    have hts := admits_intersection_iff.mp hv
    refine .intersection ?_
    simp only [List.forall_mem_append, List.forall_mem_cons] at hts ⊢
    exact ⟨hts.1, h v hts.2.1, hts.2.2⟩

theorem Admits.union_of_forall₂ {ts : List TypeExpr} {vs : List Value}
    (h : List.Forall₂ (Admits items holds) ts vs) :
    ∀ v ∈ vs, (TypeExpr.union ts).Admits items holds v := by
  intro v hv
  obtain ⟨i, hi, rfl⟩ := List.mem_iff_getElem.mp hv
  have hlt : i < ts.length := h.length_eq ▸ hi
  exact .union (List.getElem_mem hlt) (h.get hlt hi)

/-- What a type admits is admitted when it is widened. -/
theorem Widens.admits (hobject : ∀ v, v.isObject = true → holds "Object" v) (h : t.Widens u) :
    ∀ v, t.Admits items holds v → u.Admits items holds v := by
  induction h with
  | refl => exact fun v hv => hv
  | trans _ _ ih ih' => exact fun v hv => ih' v (ih v hv)
  | any => exact fun v _ => .any
  | nullable => exact fun v hv => .nullable hv
  | null =>
    intro v hv
    exact .nullish (by rw [Value.isNullish, admits_null_iff.mp hv, Bool.true_or])
  | void =>
    intro v hv
    exact .nullish (by rw [Value.isNullish, admits_void_iff.mp hv, Bool.or_true])
  | member ht => exact fun v hv => .union ht hv
  | union hsub =>
    intro v hv
    obtain ⟨t, ht, hv⟩ := admits_union_iff.mp hv
    exact .union (hsub.subset ht) hv
  | intersection hsub =>
    intro v hv
    exact .intersection fun t ht => admits_intersection_iff.mp hv t (hsub.subset ht)
  | operand ht => exact fun v hv => admits_intersection_iff.mp hv _ ht
  | object hsub =>
    intro v hv
    obtain ⟨hobject, hps⟩ := admits_object_iff.mp hv
    exact .object hobject fun p hp => hps p (hsub.subset hp)
  | structured =>
    intro v hv
    exact .named (hobject v (admits_object_iff.mp hv).1)
  | literal => exact fun v hv => admits_primitive_of_accepts (admits_literal_iff.mp hv)
  | tuple =>
    intro v hv
    obtain ⟨vs, hitems, hvs⟩ := admits_tuple_iff.mp hv
    exact .array hitems (.union_of_forall₂ hvs)
  | single =>
    intro v hv
    obtain ⟨vs, hitems, hvs⟩ := admits_tuple_iff.mp hv
    refine .array hitems fun x hx => ?_
    obtain ⟨t, ht, hadmits⟩ := admits_union_iff.mp (Admits.union_of_forall₂ hvs x hx)
    rwa [List.mem_singleton.mp ht] at hadmits
  | frame f _ ih => exact fun v hv => hv.fill f ih

end Admits

end TypeExpr

/-! ## Pure references -/

/-- Every reference answers about every value that is seen, always alike, and leaves the world one of
the set. -/
def Environment.IsPure (env : Environment Value) (call : Caller) (quiet : World → Prop)
    (seen : Value → Prop) : Prop :=
  ∀ name r c, env.find? name = some r → r.check name = .ok c →
    ∀ v, seen v → ∃ b, Run.Settles quiet (c.test call v) b

section Pure

variable {env : Environment Value} {call : Caller} {quiet : World → Prop} {seen : Value → Prop}
  {items : Nat → List Value}

def Environment.Holds (env : Environment Value) (call : Caller) (quiet : World → Prop)
    (name : String) (v : Value) : Prop :=
  ∃ c, TypeExpr.compileName env name = .ok c ∧ Run.Settles quiet (c.test call v) true

theorem Environment.holds_object {v : Value} (h : v.isObject = true) :
    env.Holds call quiet "Object" v := by
  refine ⟨.structured, rfl, ?_⟩
  have htest : Check.structured.test call v = pure true := congrArg pure h
  rw [htest]
  exact .pure true

theorem Environment.IsPure.settles (h : env.IsPure call quiet seen) {name : String}
    {c : Check Value} (hc : TypeExpr.compileName env name = .ok c) {v : Value} (hv : seen v) :
    ∃ b, Run.Settles quiet (c.test call v) b := by
  unfold TypeExpr.compileName at hc
  split at hc
  · cases hc
    exact ⟨_, .pure v.isCallable⟩
  · split at hc
    · cases hc
      exact ⟨_, .pure v.isObject⟩
    · split at hc
      · next r hr => exact h name r c hr hc v hv
      · cases hc
        exact ⟨_, .pure (v.isNamed name)⟩

theorem Environment.IsPure.answers (h : env.IsPure call quiet seen) {name : String}
    {c : Check Value} (hc : TypeExpr.compileName env name = .ok c) (hquiet : ∃ w, quiet w) :
    c.Answers quiet seen call (env.Holds call quiet name) := by
  intro v hv
  obtain ⟨b, hb⟩ := h.settles hc hv
  refine ⟨b, hb, ?_⟩
  constructor
  · rintro rfl
    exact ⟨c, hc, hb⟩
  · rintro ⟨d, hd, hsettles⟩
    obtain rfl : c = d := Except.ok.inj (hc.symm.trans hd)
    obtain ⟨w, hw⟩ := hquiet
    obtain ⟨w', -, hrun⟩ := hsettles w hw
    exact hb.of_execute hw hrun

/-- What a compiled type accepts is accepted by the compiled widened type, in the environment of the
same pure references: in the same world and in every other one of the set. -/
theorem Predicate.accepts_of_widens (hcalm : World.Calm quiet seen items)
    (hpure : env.IsPure call quiet seen) {t u : TypeExpr} (h : t.Widens u) {p q : Predicate Value}
    (hp : Predicate.compile env t = .ok p) (hq : Predicate.compile env u = .ok q) {v : Value}
    (hv : seen v) {w w' : World} (hw : quiet w)
    (haccepts : (p.check.test call v).execute w = (.ok true, w')) :
    Run.Settles quiet (q.check.test call v) true := by
  have hanswers (s : TypeExpr) (c : Check Value) (hc : s.compile env = .ok c) :
      c.Answers quiet seen call (s.Admits items (env.Holds call quiet)) :=
    TypeExpr.answers_compile hcalm s (fun x _ d hd => hpure.answers hd ⟨w, hw⟩) c hc
  have hadmits : t.Admits items (env.Holds call quiet) v :=
    ((hanswers t _ (of_compile_eq_ok hp).1 v hv).iff_of_execute hw haccepts).mp rfl
  exact (hanswers u _ (of_compile_eq_ok hq).1 v hv).settles
    (h.admits (fun _ => Environment.holds_object) v hadmits)

/-- An object type loses a property, another property becomes nullable: the value with both is still
accepted, where a callback is asked about one of them. -/
theorem Predicate.accepts_of_widens_of_object :
    let isText : Function := ⟨"isText", [⟨"value", .positional, false⟩], .isString, []⟩
    let env : Environment Value :=
      [("Text", ⟨.callback (.agent .function 0), .text "isText", .primary⟩)]
    let w : World := ⟨[], [.function isText], 0, 0, []⟩
    let call := callValue (callAgent w.agents)
    let quiet : World → Prop := fun w' => w'.agents = w.agents ∧ w'.lists = w.lists
    let t : TypeExpr :=
      .object [⟨"id", false, .literal (.int 1)⟩, ⟨"name", false, .named "Text"⟩]
    let u : TypeExpr := .object [⟨"name", false, .nullable (.named "Text")⟩]
    let v : Value := .dict false [(.str "id", .int 1), (.str "name", .str "x")]
    ∃ p q w', Predicate.compile env t = .ok p ∧ Predicate.compile env u = .ok q ∧
      (p.check.test call v).execute w = (.ok true, w') ∧
      Run.Settles quiet (q.check.test call v) true := by
  intro isText env w call quiet t u v
  have hcalm : World.Calm quiet (fun _ => True) fun _ => [] := by
    refine ⟨?_, fun _ _ _ _ _ _ => trivial, fun _ _ _ => trivial⟩
    rintro w' ⟨-, hlists⟩ v - id -
    rw [World.items, hlists]
    rfl
  have hpure : env.IsPure call quiet fun _ => True := by
    intro name r c hr hc v _
    refine ⟨v.isString, fun w' hw' => ?_⟩
    simp only [env, Environment.find?, List.lookup_cons, List.lookup_nil] at hr
    split at hr
    · cases hr
      cases hc
      refine ⟨_, ?_, rfl⟩
      exact hw'
    · cases hr
  have hwidens : t.Widens u :=
    .trans (.object (.cons _ (.refl _))) (.frame (.object [] "name" false []) (.nullable _))
  have hp : Predicate.compile env t = .ok ⟨t, _, _⟩ := rfl
  have hq : Predicate.compile env u = .ok ⟨u, _, _⟩ := rfl
  refine ⟨_, _, _, hp, hq, rfl, ?_⟩
  exact accepts_of_widens hcalm hpure hwidens hp hq trivial ⟨rfl, rfl⟩ rfl

end Pure

end TypeGuard
