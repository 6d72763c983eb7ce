import TypeGuard.TypeExpr.Tree
import TypeGuard.Proofs.TypeExpr.Expansion

/-! # Subtrees

The subtrees of a type are the type itself and the subtrees of its parts, in the order in which the
parts are written.
-/

namespace TypeGuard.TypeExpr

theorem subtrees_ofList (ts : List TypeExpr) :
    subtrees.ofList ts = ts.flatMap subtrees := by
  induction ts with
  | nil => rfl
  | cons t ts ih => rw [subtrees.ofList, ih, List.flatMap_cons]

theorem subtrees_ofProperties (ps : List (Property TypeExpr)) :
    subtrees.ofProperties ps = ps.flatMap fun p => p.value.subtrees := by
  induction ps with
  | nil => rfl
  | cons p ps ih => rw [subtrees.ofProperties, ih, List.flatMap_cons]

/-- The subtrees of a type are the type and the subtrees of its parts. -/
theorem subtrees_eq_children (t : TypeExpr) : t.subtrees = t :: t.children.flatMap subtrees := by
  induction t using TypeExpr.induction with
  | derived className t ih => rw [subtrees, children, ih, List.tail_cons]
  | _ => simp [subtrees, subtrees_ofList, subtrees_ofProperties, children, List.flatMap_map]

/-- What holds of a type if it holds of its parts, holds of every type. -/
theorem children_induction {P : TypeExpr → Prop} (h : ∀ t, (∀ u ∈ t.children, P u) → P t)
    (t : TypeExpr) : P t := by
  -- the parts of a derived object are those of its base, so the induction speaks of parts
  have hparts : ∀ u ∈ t.children, P u := by
    induction t using TypeExpr.induction with
    | nullable t ih | array t ih => exact List.forall_mem_singleton.mpr (h t ih)
    | tuple ts ih | union ts ih | intersection ts ih => exact fun u hu => h u (ih u hu)
    | object ps ih => exact List.forall_mem_map.mpr fun p hp => h p.value (ih p hp)
    | function ps t ihps iht =>
      exact List.forall_mem_append.mpr
        ⟨fun p hp => h p (ihps p hp), List.forall_mem_singleton.mpr (h t iht)⟩
    | derived className t ih => exact ih
    | _ => exact fun _ hu => absurd hu List.not_mem_nil
  exact h t hparts

theorem mem_subtrees_self (t : TypeExpr) : t ∈ t.subtrees := by
  rw [subtrees_eq_children]
  exact List.mem_cons_self

theorem subtrees_subset_of_mem_children {t u : TypeExpr} (h : u ∈ t.children) :
    u.subtrees ⊆ t.subtrees := by
  intro v hv
  rw [subtrees_eq_children t]
  exact List.mem_cons_of_mem _ (List.mem_flatMap.mpr ⟨u, h, hv⟩)

end TypeGuard.TypeExpr
