import Mathlib
import TypeGuard.Grammar.Parse

/-! # Texts in a tree

The texts in a tree are its literal texts and the keys of its properties. To change them all leaves
the rest of the tree as it is.
-/

namespace TypeGuard

namespace Text

def dropSpaces (s : String) : String :=
  String.ofList (s.toList.filter (· ≠ ' '))

end Text

def Literal.mapText (f : String → String) : Literal → Literal
  | str s => str (f s)
  | v => v

namespace TypeExpr

variable (f : String → String)

def mapTexts : TypeExpr → TypeExpr
  | literal v => literal (v.mapText f)
  | nullable t => nullable t.mapTexts
  | array t => array t.mapTexts
  | tuple ts => tuple (mapAll ts)
  | object ps => object (mapProperties ps)
  | union ts => union (mapAll ts)
  | intersection ts => intersection (mapAll ts)
  | function ps t => function (mapAll ps) t.mapTexts
  | stray ⟨key, optional, value⟩ => stray ⟨f key, optional, value.mapTexts⟩
  | t => t
termination_by structural t => t
where
  mapAll : List TypeExpr → List TypeExpr
    | [] => []
    | t :: ts => t.mapTexts :: mapAll ts
  termination_by structural ts => ts
  mapProperties : List (Property TypeExpr) → List (Property TypeExpr)
    | [] => []
    | ⟨key, optional, value⟩ :: ps => ⟨f key, optional, value.mapTexts⟩ :: mapProperties ps
  termination_by structural ps => ps

theorem mapAll_eq_map (ts : List TypeExpr) : mapTexts.mapAll f ts = ts.map (mapTexts f) := by
  induction ts with
  | nil => rfl
  | cons t ts ih => rw [mapTexts.mapAll, ih, List.map_cons]

theorem mapProperties_eq_map (ps : List (Property TypeExpr)) :
    mapTexts.mapProperties f ps = ps.map fun p => ⟨f p.key, p.optional, p.value.mapTexts f⟩ := by
  induction ps with
  | nil => rfl
  | cons p ps ih => rw [mapTexts.mapProperties, ih, List.map_cons]

theorem mapTexts_tuple (ts : List TypeExpr) :
    (tuple ts).mapTexts f = tuple (ts.map (mapTexts f)) :=
  congrArg tuple (mapAll_eq_map f ts)

theorem mapTexts_object (ps : List (Property TypeExpr)) :
    (object ps).mapTexts f =
      object (ps.map fun p => ⟨f p.key, p.optional, p.value.mapTexts f⟩) :=
  congrArg object (mapProperties_eq_map f ps)

theorem mapTexts_union (ts : List TypeExpr) :
    (union ts).mapTexts f = union (ts.map (mapTexts f)) :=
  congrArg union (mapAll_eq_map f ts)

theorem mapTexts_intersection (ts : List TypeExpr) :
    (intersection ts).mapTexts f = intersection (ts.map (mapTexts f)) :=
  congrArg intersection (mapAll_eq_map f ts)

theorem mapTexts_function (ps : List TypeExpr) (t : TypeExpr) :
    (function ps t).mapTexts f = function (ps.map (mapTexts f)) (t.mapTexts f) :=
  congrArg (function · _) (mapAll_eq_map f ps)

theorem mapTexts_arrays (n : ℕ) (t : TypeExpr) :
    (array^[n] t).mapTexts f = array^[n] (t.mapTexts f) := by
  induction n generalizing t with
  | zero => rfl
  | succ n ih => rw [Function.iterate_succ_apply, ih]; rfl

/-! ## Lists of members -/

open Grammar

theorem mapTexts_foldMembers {node : List TypeExpr → TypeExpr}
    (h : ∀ ts, (node ts).mapTexts f = node (ts.map (mapTexts f))) (ts : List TypeExpr) :
    (foldMembers node ts).mapTexts f = foldMembers node (ts.map (mapTexts f)) := by
  unfold foldMembers
  split
  · rfl
  · next ts hne =>
    rw [h]
    split
    · next t ht =>
      obtain ⟨u, rfl, -⟩ := List.map_eq_singleton_iff.mp ht
      exact absurd rfl (hne u)
    · rfl

theorem foldMembers_inj {node : List TypeExpr → TypeExpr} (hnode : Function.Injective node)
    {ts us : List TypeExpr} (hlength : ts.length = us.length) :
    foldMembers node ts = foldMembers node us ↔ ts = us := by
  refine ⟨fun h => ?_, congrArg _⟩
  match ts, us, hlength with
  | [], [], _ => rfl
  | [t], [u], _ => exact congrArg (fun t => [t]) h
  | _ :: _ :: _, _ :: _ :: _, _ => exact hnode h

/-- Where the members of two nodes are the same up to their texts, so are the nodes, and they are
the same nodes only if the members are the same. -/
theorem foldMembers_alike {node : List TypeExpr → TypeExpr}
    (hmap : ∀ ts, (node ts).mapTexts f = node (ts.map (mapTexts f)))
    (hnode : Function.Injective node) {ts us : List TypeExpr}
    (h : ts.map (mapTexts f) = us.map (mapTexts f)) :
    (foldMembers node ts).mapTexts f = (foldMembers node us).mapTexts f ∧
      (foldMembers node ts = foldMembers node us ↔ ts = us) := by
  constructor
  · rw [mapTexts_foldMembers f hmap, mapTexts_foldMembers f hmap, h]
  · exact foldMembers_inj hnode (by simpa using congrArg List.length h)

end TypeExpr

end TypeGuard
