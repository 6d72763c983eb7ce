import TypeGuard.Proofs.TypeExpr.Subtrees
import TypeGuard.Proofs.TypeExpr.Texts

/-! # Matching trees

Two trees match if they have the same forms in the same places, with related literals and keys and
with the same names. Trees that are equal, by what their literals denote, match, and so do trees
that are the same up to a change of their texts.
-/

namespace TypeGuard.TypeExpr

section

variable (R : Literal → Literal → Prop) (K : String → String → Prop)

inductive SameRoot : TypeExpr → TypeExpr → Prop
  | literal {x y} : R x y → SameRoot (literal x) (literal y)
  | primitive (kind) : SameRoot (primitive kind) (primitive kind)
  | null : SameRoot null null
  | void : SameRoot void void
  | any : SameRoot any any
  | nullable (t u) : SameRoot (nullable t) (nullable u)
  | array (t u) : SameRoot (array t) (array u)
  | tuple (ts us) : SameRoot (tuple ts) (tuple us)
  | object {ps qs} :
      List.Forall₂ (fun p q => K (Property.key p) (Property.key q) ∧ p.optional = q.optional) ps qs →
      SameRoot (object ps) (object qs)
  | union (ts us) : SameRoot (union ts) (union us)
  | intersection (ts us) : SameRoot (intersection ts) (intersection us)
  | named (name) : SameRoot (named name) (named name)
  | function (ps qs t u) : SameRoot (function ps t) (function qs u)
  | stray (p q) : SameRoot (stray p) (stray q)
  | foreign (className) : SameRoot (foreign className) (foreign className)
  | derived (className t u) : SameRoot (derived className t) (derived className u)

inductive Matches : TypeExpr → TypeExpr → Prop
  | mk {t u} : SameRoot R K t u → List.Forall₂ Matches t.children u.children → Matches t u

end

variable {R S T : Literal → Literal → Prop} {K : String → String → Prop} {t u : TypeExpr}

/-- Induction over the places of two matching trees. -/
@[elab_as_elim] theorem Matches.induction {P : TypeExpr → TypeExpr → Prop}
    (mk : ∀ t u, SameRoot R K t u → List.Forall₂ (Matches R K) t.children u.children →
      List.Forall₂ P t.children u.children → P t u)
    (h : t.Matches R K u) : P t u := by
  induction t using children_induction generalizing u with
  | h t ih =>
    obtain ⟨hroot, hchildren⟩ := h
    refine mk t u hroot hchildren ?_
    have hmem := (List.forall₂_and_left _ _).mpr ⟨fun s hs => hs, hchildren⟩
    exact hmem.imp fun s v hsv => ih s hsv.1 hsv.2

/-- Induction over the places of two matching trees, where something holds of all subtrees of the
first one. -/
theorem Matches.induction_of_subtrees {N : TypeExpr → Prop} {P : TypeExpr → TypeExpr → Prop}
    (mk : ∀ t u, SameRoot R K t u → N t → List.Forall₂ P t.children u.children → P t u)
    (h : t.Matches R K u) : (∀ s ∈ t.subtrees, N s) → P t u := by
  refine Matches.induction (fun t u hroot _ ih hall => mk t u hroot ?_ ?_) h
  · exact hall t (mem_subtrees_self t)
  · have hmem := (List.forall₂_and_left _ _).mpr ⟨fun s hs => hs, ih⟩
    exact hmem.imp fun s v hsv =>
      hsv.2 fun x hx => hall x (subtrees_subset_of_mem_children hsv.1 hx)

theorem SameRoot.eq_named_iff {x : String} (h : t.SameRoot R K u) :
    t = TypeExpr.named x ↔ u = TypeExpr.named x := by
  cases h <;> simp

theorem Matches.root (h : t.Matches R K u) : t.SameRoot R K u := by
  obtain ⟨hroot, -⟩ := h
  exact hroot

/-- Trees match if they are related in a way that makes roots match and passes on to the parts. -/
theorem matches_of_step {E : TypeExpr → TypeExpr → Prop}
    (hE : ∀ t u, E t u → t.SameRoot R K u ∧ List.Forall₂ E t.children u.children) (t : TypeExpr) :
    ∀ u, E t u → t.Matches R K u := by
  induction t using children_induction with
  | h t ih =>
    intro u h
    obtain ⟨hroot, hchildren⟩ := hE t u h
    have hmem := (List.forall₂_and_left _ _).mpr ⟨fun s hs => hs, hchildren⟩
    exact .mk hroot (hmem.imp fun s v hsv => ih s hsv.1 v hsv.2)

theorem SameRoot.both (hRS : ∀ x y, R x y → S x y → T x y) (h : SameRoot R K t u)
    (h' : SameRoot S Eq t u) : SameRoot T K t u := by
  cases h with
  | literal hxy =>
    cases h' with
    | literal hxy' => exact .literal (hRS _ _ hxy hxy')
  | object hkeys => exact .object hkeys
  | _ => constructor

theorem Matches.both (hRS : ∀ x y, R x y → S x y → T x y) (h : t.Matches R K u) :
    t.Matches S Eq u → t.Matches T K u := by
  refine Matches.induction (fun t u hroot _ ih => ?_) h
  rintro ⟨hroot', hchildren'⟩
  exact .mk (hroot.both hRS hroot') (ih.mp (fun s v hs hs' => hs hs') hchildren')

theorem forall₂_concat_iff {α β : Type} {P : α → β → Prop} {as : List α} {bs : List β} {a : α}
    {b : β} : List.Forall₂ P (as ++ [a]) (bs ++ [b]) ↔ List.Forall₂ P as bs ∧ P a b := by
  rw [← List.forall₂_reverse_iff, List.reverse_concat, List.reverse_concat, List.forall₂_cons,
    List.forall₂_reverse_iff, and_comm]

theorem matches_object {ps qs : List (Property TypeExpr)}
    (h : List.Forall₂ (fun p q => (K p.key q.key ∧ p.optional = q.optional) ∧
      p.value.Matches R K q.value) ps qs) : (object ps).Matches R K (object qs) := by
  refine .mk (.object (h.imp fun _ _ h => h.1)) ?_
  rw [children, children, List.forall₂_map_left_iff, List.forall₂_map_right_iff]
  exact h.imp fun _ _ h => h.2

theorem matches_function {ps qs : List TypeExpr} (hps : List.Forall₂ (Matches R K) ps qs)
    (h : t.Matches R K u) : (function ps t).Matches R K (function qs u) :=
  .mk (.function ps qs t u) (forall₂_concat_iff.mpr ⟨hps, h⟩)

/-! ## Equal trees -/

theorem sameAll_eq_true_iff {ts us : List TypeExpr} :
    same.sameAll ts us = true ↔ List.Forall₂ (fun t u => t.same u = true) ts us := by
  induction ts generalizing us with
  | nil => cases us <;> simp [same.sameAll]
  | cons t ts ih => cases us <;> simp [same.sameAll, ih]

theorem sameProperties_eq_true_iff {ps qs : List (Property TypeExpr)} :
    same.sameProperties ps qs = true ↔
      List.Forall₂ (fun p q => (p.key = q.key ∧ p.optional = q.optional) ∧
        p.value.same q.value = true) ps qs := by
  induction ps generalizing qs with
  | nil => cases qs <;> simp [same.sameProperties]
  | cons p ps ih => cases qs <;> simp [same.sameProperties, ih]

theorem sameRoot_of_same {t u : TypeExpr} (h : t.same u = true) :
    t.SameRoot (fun x y => x.same y = true) Eq u ∧
      List.Forall₂ (fun s v => s.same v = true) t.children u.children := by
  cases t <;> cases u <;> try contradiction
  case literal.literal x y => exact ⟨.literal h, .nil⟩
  case primitive.primitive kind kind' =>
    obtain rfl := of_decide_eq_true h
    exact ⟨.primitive kind, .nil⟩
  case null.null => exact ⟨.null, .nil⟩
  case void.void => exact ⟨.void, .nil⟩
  case any.any => exact ⟨.any, .nil⟩
  case nullable.nullable t u => exact ⟨.nullable t u, .cons h .nil⟩
  case array.array t u => exact ⟨.array t u, .cons h .nil⟩
  case tuple.tuple ts us => exact ⟨.tuple ts us, sameAll_eq_true_iff.mp h⟩
  case object.object ps qs =>
    have hps := sameProperties_eq_true_iff.mp h
    refine ⟨.object (hps.imp fun p q hpq => hpq.1), ?_⟩
    rw [children, children, List.forall₂_map_left_iff, List.forall₂_map_right_iff]
    exact hps.imp fun p q hpq => hpq.2
  case union.union ts us => exact ⟨.union ts us, sameAll_eq_true_iff.mp h⟩
  case intersection.intersection ts us => exact ⟨.intersection ts us, sameAll_eq_true_iff.mp h⟩
  case named.named name name' =>
    obtain rfl := of_decide_eq_true h
    exact ⟨.named name, .nil⟩
  case function.function ps t qs u =>
    obtain ⟨hps, ht⟩ := Bool.and_eq_true_iff.mp h
    exact ⟨.function ps qs t u, forall₂_concat_iff.mpr ⟨sameAll_eq_true_iff.mp hps, ht⟩⟩
  case stray.stray p q => exact ⟨.stray p q, .nil⟩
  case derived.derived className s className' v =>
    obtain ⟨hname, hbase⟩ := Bool.and_eq_true_iff.mp h
    obtain rfl := of_decide_eq_true hname
    exact ⟨.derived className s v, (sameRoot_of_same hbase).2⟩

theorem matches_of_same {t u : TypeExpr} (h : t.same u = true) :
    t.Matches (fun x y => x.same y = true) Eq u :=
  matches_of_step (fun _ _ => sameRoot_of_same) t u h

def IsPure (t : TypeExpr) : Prop :=
  ∀ u ∈ t.subtrees, u.form ∈ Form.types

theorem IsPure.child {t u : TypeExpr} (h : t.IsPure) (hu : u ∈ t.children) : u.IsPure :=
  fun v hv => h v (subtrees_subset_of_mem_children hu hv)

theorem IsPure.root {t : TypeExpr} (h : t.IsPure) : t.form ∈ Form.types :=
  h t (mem_subtrees_self t)

theorem isPure_iff {t : TypeExpr} :
    t.IsPure ↔ t.form ∈ Form.types ∧ ∀ u ∈ t.children, u.IsPure := by
  refine ⟨fun h => ⟨h.root, fun u => h.child⟩, fun h u hu => ?_⟩
  rw [subtrees_eq_children, List.mem_cons, List.mem_flatMap] at hu
  rcases hu with rfl | ⟨v, hv, hu⟩
  · exact h.1
  · exact h.2 v hv u hu

/-- Trees of types that match with the same literals and keys are the same. What is no type matches
whatever it holds. -/
theorem Matches.eq (h : t.Matches Eq Eq u) : t.IsPure → t = u := by
  refine Matches.induction (fun t u hroot _ ih hpure => ?_) h
  have hchildren : t.children = u.children := by
    have hmem := (List.forall₂_and_left _ _).mpr ⟨fun s hs => hs, ih⟩
    rw [← List.forall₂_eq_eq_eq]
    exact hmem.imp fun s v hsv =>
      hsv.2 (hpure.child hsv.1)
  cases hroot with
  | literal hxy => exact congrArg literal hxy
  | nullable => exact congrArg nullable (List.singleton_inj.mp hchildren)
  | array => exact congrArg array (List.singleton_inj.mp hchildren)
  | tuple => exact congrArg tuple hchildren
  | @object ps qs hkeys =>
    have hvalues : List.Forall₂ (fun p q => Property.value p = Property.value q) ps qs := by
      rwa [children, children, ← List.forall₂_eq_eq_eq, List.forall₂_map_left_iff,
        List.forall₂_map_right_iff] at hchildren
    have hproperty (p q : Property TypeExpr) (hkey : p.key = q.key ∧ p.optional = q.optional)
        (hvalue : p.value = q.value) : p = q := by
      cases p
      cases q
      simp_all
    have heq := hkeys.mp hproperty hvalues
    rw [List.forall₂_eq_eq_eq] at heq
    exact congrArg object heq
  | union => exact congrArg union hchildren
  | intersection => exact congrArg intersection hchildren
  | function =>
    obtain ⟨rfl, ht⟩ := List.append_inj' hchildren rfl
    exact congrArg (function _) (List.singleton_inj.mp ht)
  | stray p => exact absurd hpure.root (by decide : Form.stray ∉ Form.types)
  | derived className => exact absurd hpure.root (Form.other_not_mem_types className)
  | primitive | null | void | any | named | foreign => rfl

/-! ## Trees that are the same up to their texts -/

theorem forall₂_of_map_eq {α β : Type} {f g : α → β} {as bs : List α}
    (h : as.map f = bs.map g) : List.Forall₂ (fun a b => f a = g b) as bs := by
  rwa [← List.forall₂_eq_eq_eq, List.forall₂_map_left_iff, List.forall₂_map_right_iff] at h

end TypeGuard.TypeExpr
