import Mathlib
import TypeGuard.TypeExpr.Render

/-! # Expansion

Names in a type are replaced by types. What replaces a name is not looked at again, so that the
names inside of it keep their own meaning. The names `Function` and `Object` are fixed.
-/

namespace TypeGuard

theorem Level.rank_le_primary (l : Level) : l.rank ≤ Level.primary.rank := by
  cases l <;> decide

@[simp] theorem parenthesize_function (level : Level) (cs : List Char) :
    parenthesize level .function cs = cs := by
  simp [parenthesize, Level.rank]

@[simp] theorem parenthesize_primary (required : Level) (cs : List Char) :
    parenthesize .primary required cs = cs := by
  rw [parenthesize, if_neg (Nat.not_lt.mpr required.rank_le_primary)]

namespace TypeExpr

/-- Induction over a type, with its parts in lists. -/
@[elab_as_elim] theorem induction {P : TypeExpr → Prop}
    (literal : ∀ v, P (literal v)) (primitive : ∀ kind, P (primitive kind)) (null : P null)
    (void : P void) (any : P any) (nullable : ∀ t, P t → P (nullable t))
    (array : ∀ t, P t → P (array t)) (tuple : ∀ ts, (∀ t ∈ ts, P t) → P (tuple ts))
    (object : ∀ ps : List (Property TypeExpr), (∀ p ∈ ps, P p.value) → P (object ps))
    (union : ∀ ts, (∀ t ∈ ts, P t) → P (union ts))
    (intersection : ∀ ts, (∀ t ∈ ts, P t) → P (intersection ts))
    (named : ∀ name, P (named name))
    (function : ∀ ps t, (∀ p ∈ ps, P p) → P t → P (function ps t))
    (stray : ∀ p, P (stray p)) (foreign : ∀ className, P (foreign className))
    (derived : ∀ className t, P t → P (derived className t)) (t : TypeExpr) : P t := by
  refine @TypeExpr.rec P (fun ts => ∀ t ∈ ts, P t) (fun ps => ∀ p ∈ ps, P p.value)
    (fun p => P p.value) literal primitive null void any nullable array tuple object union
    intersection named function (fun p _ => stray p) foreign derived ?_ ?_ ?_ ?_ ?_ t
  · exact fun _ h => absurd h List.not_mem_nil
  · exact fun _ _ ht hts => List.forall_mem_cons.mpr ⟨ht, hts⟩
  · exact fun _ h => absurd h List.not_mem_nil
  · exact fun _ _ hp hps => List.forall_mem_cons.mpr ⟨hp, hps⟩
  · exact fun _ _ _ h => h

variable (f : String → Option TypeExpr)

/-- What a name stands for: the type that replaces it, if it may be replaced. -/
def expandName (name : String) : TypeExpr :=
  if name = "Function" ∨ name = "Object" then named name else (f name).getD (named name)

def expand : TypeExpr → TypeExpr
  | nullable t => nullable t.expand
  | array t => array t.expand
  | tuple ts => tuple (expandAll ts)
  | object ps => object (expandValues ps)
  | union ts => union (expandAll ts)
  | intersection ts => intersection (expandAll ts)
  | named name => expandName f name
  | function ps t => function (expandAll ps) t.expand
  | t => t
termination_by structural t => t
where
  expandAll : List TypeExpr → List TypeExpr
    | [] => []
    | t :: ts => t.expand :: expandAll ts
  termination_by structural ts => ts
  expandValues : List (Property TypeExpr) → List (Property TypeExpr)
    | [] => []
    | ⟨key, optional, value⟩ :: ps => ⟨key, optional, value.expand⟩ :: expandValues ps
  termination_by structural ps => ps

theorem expandAll_eq_map (ts : List TypeExpr) : expand.expandAll f ts = ts.map (expand f) := by
  induction ts with
  | nil => rfl
  | cons t ts ih => rw [expand.expandAll, ih, List.map_cons]

theorem expandValues_eq_map (ps : List (Property TypeExpr)) :
    expand.expandValues f ps = ps.map fun p => ⟨p.key, p.optional, p.value.expand f⟩ := by
  induction ps with
  | nil => rfl
  | cons p ps ih => rw [expand.expandValues, ih, List.map_cons]

/-- Only a name can bind looser once it is replaced. -/
theorem rank_level_expand_le (t : TypeExpr) : (t.expand f).level.rank ≤ t.level.rank := by
  cases t with
  | named name => exact (expandName f name).level.rank_le_primary
  | _ => exact Nat.le_refl _

theorem level_expand_of_not_named {t : TypeExpr} (h : ∀ name, t ≠ named name) :
    (t.expand f).level = t.level := by
  cases t with
  | named name => exact absurd rfl (h name)
  | _ => rfl

/-- A type is put in parentheses by the level at its root. What is no type is not written at all. -/
theorem render_none {t : TypeExpr} (ht : ∀ className base, t ≠ derived className base)
    (required : Level) :
    t.render (fun _ => none) required =
      parenthesize t.level required (t.render (fun _ => none) .function) := by
  cases t with
  | derived className base => exact absurd rfl (ht className base)
  | nullable t => exact congrArg _ (parenthesize_function .nullable _).symm
  | union ts => exact congrArg _ (parenthesize_function .union _).symm
  | intersection ts => exact congrArg _ (parenthesize_function .intersection _).symm
  | function ps t => exact congrArg _ (parenthesize_function .function _).symm
  | object ps => cases ps <;> exact (parenthesize_primary required _).symm
  | _ => exact (parenthesize_primary required _).symm

end TypeExpr

end TypeGuard
