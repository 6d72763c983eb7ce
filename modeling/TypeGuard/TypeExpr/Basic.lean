import TypeGuard.Number.Binary64

/-! # Type expressions

The tree of a type expression. Three further forms stand for things that are no type: they can occur
in a tree built by hand, and every operation on trees says what it does with them.
-/

namespace TypeGuard

inductive Literal where
  | bool (b : Bool)
  | str (s : String)
  | int (i : Int)
  | float (x : Binary64)
deriving DecidableEq, Repr

/-- The primitive kinds. A kind of another name is never written by the grammar. -/
inductive Primitive where
  | string
  | number
  | boolean
  | unknown (name : String)
deriving DecidableEq, Repr

def Primitive.name : Primitive → String
  | string => "string"
  | number => "number"
  | boolean => "boolean"
  | unknown name => name

/-- One entry of an object type; `optional` marks `key?: T`. -/
structure Property (α : Type) where
  key : String
  optional : Bool
  value : α

inductive TypeExpr where
  | literal (value : Literal)
  | primitive (kind : Primitive)
  | null
  | void
  | any
  | nullable (inner : TypeExpr)
  | array (element : TypeExpr)
  | tuple (elements : List TypeExpr)
  | object (properties : List (Property TypeExpr))
  | union (members : List TypeExpr)
  | intersection (members : List TypeExpr)
  | named (name : String)
  | function (params : List TypeExpr) (result : TypeExpr)
  | stray (property : Property TypeExpr)
  /-- An object of a class that has nothing to do with types. -/
  | foreign (className : String)
  /-- An object of a class derived from that of a tree, with the parts of that tree. -/
  | derived (className : String) (base : TypeExpr)
deriving Inhabited

namespace TypeExpr

inductive Form where
  | literal | primitive | null | void | any | nullable | array | tuple | object | union
  | intersection | named | function | stray
  /-- A class that is none of the above. -/
  | other (className : String)
deriving DecidableEq, Repr

def form : TypeExpr → Form
  | literal _ => .literal
  | primitive _ => .primitive
  | null => .null
  | void => .void
  | any => .any
  | nullable _ => .nullable
  | array _ => .array
  | tuple _ => .tuple
  | object _ => .object
  | union _ => .union
  | intersection _ => .intersection
  | named _ => .named
  | function .. => .function
  | stray _ => .stray
  | foreign className => .other className
  | derived className _ => .other className

namespace Form

def name : Form → String
  | literal => "LiteralType"
  | primitive => "PrimitiveType"
  | null => "NullType"
  | void => "VoidType"
  | any => "AnyType"
  | nullable => "NullableType"
  | array => "ArrayType"
  | tuple => "TupleType"
  | object => "ObjectType"
  | union => "UnionType"
  | intersection => "IntersectionType"
  | named => "GenericType"
  | function => "FunctionType"
  | stray => "ObjectProperty"
  | other className => className

def types : List Form :=
  [literal, primitive, null, void, any, nullable, array, tuple, object, union, intersection, named,
    function]

theorem other_not_mem_types (className : String) : other className ∉ types := by
  simp [types]

/-- The forms that can be compiled to a check: all types but functions. -/
def checkable : List Form :=
  types.filter (· ≠ function)

end Form

end TypeExpr

end TypeGuard
