import TypeGuard.TypeExpr.Render
import TypeGuard.Proofs.TypeExpr.Expansion

/-! # Places in a type

A place is given by the frames around it, from the outside in. What stands at a place is written
there in a text that is otherwise fixed; only the level that the place requires decides on
parentheses. There is no place inside a function type, which is no type of values.
-/

namespace TypeGuard.TypeExpr

inductive Frame where
  | nullable
  | array
  | tuple (before after : List TypeExpr)
  | object (before : List (Property TypeExpr)) (key : String) (optional : Bool)
      (after : List (Property TypeExpr))
  | union (before after : List TypeExpr)
  | intersection (before after : List TypeExpr)

namespace Frame

def fill : Frame → TypeExpr → TypeExpr
  | nullable, t => .nullable t
  | array, t => .array t
  | tuple before after, t => .tuple (before ++ t :: after)
  | object before key optional after, t => .object (before ++ ⟨key, optional, t⟩ :: after)
  | union before after, t => .union (before ++ t :: after)
  | intersection before after, t => .intersection (before ++ t :: after)

def level : Frame → Level
  | nullable => .nullable
  | union _ _ => .intersection
  | intersection _ _ => .nullable
  | _ => .function

end Frame

def fill (frames : List Frame) (t : TypeExpr) : TypeExpr :=
  frames.foldr Frame.fill t

/-- The level that a place requires in a type of the given one. -/
def levelAt (required : Level) (frames : List Frame) : Level :=
  frames.foldl (fun _ f => f.level) required

/-! ## The text at a place -/

/-- A text that is put together around a part, whatever the part is. -/
def Encloses (whole part : TypeExpr → List Char) : Prop :=
  ∃ before after, ∀ t, whole t = before ++ part t ++ after

namespace Encloses

variable {whole middle part : TypeExpr → List Char}

theorem refl (part : TypeExpr → List Char) : Encloses part part :=
  ⟨[], [], by simp⟩

theorem trans (h : Encloses whole middle) (h' : Encloses middle part) : Encloses whole part := by
  obtain ⟨before, after, h⟩ := h
  obtain ⟨before', after', h'⟩ := h'
  exact ⟨before ++ before', after' ++ after, by simp [h, h']⟩

theorem parenthesize (level required : Level) (part : TypeExpr → List Char) :
    Encloses (fun t => TypeGuard.parenthesize level required (part t)) part := by
  unfold TypeGuard.parenthesize
  by_cases hlevel : level.rank < required.rank
  · exact ⟨['('], [')'], fun t => by simp [hlevel]⟩
  · exact ⟨[], [], fun t => by simp [hlevel]⟩

end Encloses

variable (labels : Labels)

theorem encloses_renderAll (required : Level) (separator : List Char)
    (before after : List TypeExpr) :
    Encloses (fun t => render.renderAll labels required separator (before ++ t :: after))
      (render labels required) := by
  induction before with
  | nil =>
    cases after with
    | nil => exact .refl _
    | cons u us =>
      refine ⟨[], separator ++ render.renderAll labels required separator (u :: us), fun t => ?_⟩
      simp [render.renderAll]
  | cons u before ih =>
    refine .trans ⟨u.render labels required ++ separator, [], fun t => ?_⟩ ih
    cases before <;> simp [render.renderAll]

theorem encloses_renderProperties (before after : List (Property TypeExpr)) (key : String)
    (optional : Bool) :
    Encloses (fun t => render.renderProperties labels (before ++ ⟨key, optional, t⟩ :: after))
      (render labels .function) := by
  induction before with
  | nil =>
    let head := Text.literal key.toList ++ (if optional then ['?'] else []) ++ [':', ' ']
    cases after with
    | nil => exact ⟨head, [], fun t => by simp [render.renderProperties, head]⟩
    | cons q qs =>
      refine ⟨head, [',', ' '] ++ render.renderProperties labels (q :: qs), fun t => ?_⟩
      simp [render.renderProperties, head]
  | cons q before ih =>
    let head := Text.literal q.key.toList ++ (if q.optional then ['?'] else []) ++ [':', ' '] ++
      q.value.render labels .function ++ [',', ' ']
    refine .trans ⟨head, [], fun t => ?_⟩ ih
    cases before <;> simp [render.renderProperties, head]

theorem render_object_of_ne_nil {ps : List (Property TypeExpr)} (h : ps ≠ []) (required : Level) :
    (object ps).render labels required =
      ['{', ' '] ++ render.renderProperties labels ps ++ [' ', '}'] := by
  cases ps with
  | nil => exact absurd rfl h
  | cons p ps => rfl

theorem Frame.encloses_render (f : Frame) (required : Level) :
    Encloses (fun t => (f.fill t).render labels required) (render labels f.level) := by
  cases f with
  | nullable =>
    exact .trans (.parenthesize .nullable required fun t => '?' :: t.render labels .nullable)
      ⟨['?'], [], fun t => by simp [level]⟩
  | array => exact ⟨"Array<".toList, ['>'], fun t => rfl⟩
  | tuple before after =>
    exact .trans ⟨['['], [']'], fun t => rfl⟩
      (encloses_renderAll labels .function [',', ' '] before after)
  | object before key optional after =>
    refine .trans ⟨['{', ' '], [' ', '}'], fun t => ?_⟩
      (encloses_renderProperties labels before after key optional)
    exact render_object_of_ne_nil labels (by simp) required
  | union before after =>
    exact .trans (.parenthesize .union required _)
      (encloses_renderAll labels .intersection [' ', '|', ' '] before after)
  | intersection before after =>
    exact .trans (.parenthesize .intersection required _)
      (encloses_renderAll labels .nullable [' ', '&', ' '] before after)

/-- What stands at a place is written at the level that the place requires. -/
theorem encloses_render_fill (frames : List Frame) (required : Level) :
    Encloses (fun t => (fill frames t).render labels required)
      (render labels (levelAt required frames)) := by
  induction frames generalizing required with
  | nil => exact .refl _
  | cons f frames ih =>
    obtain ⟨before, after, h⟩ := f.encloses_render labels required
    exact .trans ⟨before, after, fun t => h (fill frames t)⟩ (ih f.level)

end TypeGuard.TypeExpr
