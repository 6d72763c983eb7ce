import TypeGuard.TypeExpr.Basic
import TypeGuard.Number.Real

/-! # Trees

The parts of a type expression, its subtrees in the order in which they are written, and equality up
to the way a literal number is written.
-/

namespace TypeGuard.TypeExpr

def children : TypeExpr → List TypeExpr
  | nullable t => [t]
  | array t => [t]
  | tuple ts => ts
  | object ps => ps.map Property.value
  | union ts => ts
  | intersection ts => ts
  | function params result => params ++ [result]
  | derived _ base => base.children
  | _ => []

/-- A type and everything inside it, each type before its parts. -/
def subtrees : TypeExpr → List TypeExpr
  | nullable t => nullable t :: t.subtrees
  | array t => array t :: t.subtrees
  | tuple ts => tuple ts :: ofList ts
  | object ps => object ps :: ofProperties ps
  | union ts => union ts :: ofList ts
  | intersection ts => intersection ts :: ofList ts
  | function params result => function params result :: (ofList params ++ result.subtrees)
  | derived className base => derived className base :: base.subtrees.tail
  | t => [t]
termination_by structural t => t
where
  ofList : List TypeExpr → List TypeExpr
    | [] => []
    | t :: ts => t.subtrees ++ ofList ts
  termination_by structural ts => ts
  ofProperties : List (Property TypeExpr) → List TypeExpr
    | [] => []
    | ⟨_, _, value⟩ :: ps => value.subtrees ++ ofProperties ps
  termination_by structural ps => ps

/-- Whether a tree is of a form, or of a class derived from it; everything is an object. -/
def isA (form : Form) : TypeExpr → Bool
  | derived className base => form = .other className || base.isA form
  | t => t.form = form || form = .other "object"

def find (form : Form) (t : TypeExpr) : List TypeExpr :=
  t.subtrees.filter (isA form)

end TypeExpr

def Literal.magnitude? : Literal → Option Magnitude
  | .bool b => some (.ofInt (if b then 1 else 0))
  | .int i => some (.ofInt i)
  | .float x => some (.ofBinary64 x)
  | .str _ => none

def Literal.same (a b : Literal) : Bool :=
  match a, b with
  | .str s, .str t => s = t
  | a, b =>
    match a.magnitude?, b.magnitude? with
    | some m, some n => m.same n
    | _, _ => false

/-- Equality of trees: the same forms in the same places, with the same names, keys and literals.
Objects that have nothing to do with types are equal to nothing. -/
def TypeExpr.same : TypeExpr → TypeExpr → Bool
  | .literal a, .literal b => a.same b
  | .primitive a, .primitive b => a = b
  | .null, .null => true
  | .void, .void => true
  | .any, .any => true
  | .nullable s, .nullable t => s.same t
  | .array s, .array t => s.same t
  | .tuple ss, .tuple ts => sameAll ss ts
  | .object ps, .object qs => sameProperties ps qs
  | .union ss, .union ts => sameAll ss ts
  | .intersection ss, .intersection ts => sameAll ss ts
  | .named a, .named b => a = b
  | .function ps r, .function qs t => sameAll ps qs && r.same t
  | .stray ⟨k, o, v⟩, .stray ⟨k', o', v'⟩ => k = k' && o = o' && v.same v'
  | .derived c s, .derived d t => c = d && s.same t
  | _, _ => false
termination_by structural s => s
where
  sameAll : List TypeExpr → List TypeExpr → Bool
    | [], [] => true
    | s :: ss, t :: ts => s.same t && sameAll ss ts
    | _, _ => false
  termination_by structural ss => ss
  sameProperties : List (Property TypeExpr) → List (Property TypeExpr) → Bool
    | [], [] => true
    | ⟨k, o, v⟩ :: ps, ⟨k', o', v'⟩ :: qs =>
      k = k' && o = o' && v.same v' && sameProperties ps qs
    | _, _ => false
  termination_by structural ps => ps

end TypeGuard
