import TypeGuard.Text.Quoted
import TypeGuard.Number.Decimal
import TypeGuard.TypeExpr.Basic

/-! # Rendering type expressions

A tree is written in the syntax of the grammar, with parentheses only where a part binds looser than
its place requires. A name that stands for a reference is written as the text of its label.
-/

namespace TypeGuard

/-- How strongly a type binds, loosest first. -/
inductive Level where
  | function
  | union
  | intersection
  | nullable
  | primary
deriving DecidableEq, Repr

def Level.rank : Level → Nat
  | function => 0
  | union => 1
  | intersection => 2
  | nullable => 3
  | primary => 4

structure Label where
  text : List Char
  level : Level
deriving DecidableEq

abbrev Labels := String → Option Label

/-- A text in parentheses, if it binds looser than its place requires. -/
def parenthesize (level required : Level) (cs : List Char) : List Char :=
  if level.rank < required.rank then '(' :: cs ++ [')'] else cs

def Literal.chars : Literal → List Char
  | bool b => (if b then "true" else "false").toList
  | str s => Text.literal s.toList
  | int i => intChars i
  | float x => x.chars

def Primitive.chars : Primitive → List Char
  | boolean => "bool".toList
  | kind => kind.name.toList

namespace TypeExpr

def level : TypeExpr → Level
  | function .. => .function
  | union _ => .union
  | intersection _ => .intersection
  | nullable _ => .nullable
  | derived _ base => base.level
  | _ => .primary

variable (labels : Labels)

def renderName (required : Level) (name : String) : List Char :=
  match labels name with
  | some label => parenthesize label.level required label.text
  | none => name.toList

def render (required : Level) : TypeExpr → List Char
  | literal v => v.chars
  | primitive kind => kind.chars
  | null => "null".toList
  | void => "void".toList
  | any => "any".toList
  | nullable t => parenthesize .nullable required ('?' :: t.render .nullable)
  | array t => "Array<".toList ++ t.render .function ++ ['>']
  | tuple ts => '[' :: renderAll .function [',', ' '] ts ++ [']']
  | object [] => ['{', '}']
  | object (p :: ps) => ['{', ' '] ++ renderProperties (p :: ps) ++ [' ', '}']
  | union ts => parenthesize .union required (renderAll .intersection [' ', '|', ' '] ts)
  | intersection ts => parenthesize .intersection required (renderAll .nullable [' ', '&', ' '] ts)
  | named name => renderName labels required name
  | function ps t =>
    parenthesize .function required
      ('(' :: renderAll .function [',', ' '] ps ++ ") => ".toList ++ t.render .function)
  | stray _ => "<unknown>".toList
  | foreign _ => "<unknown>".toList
  | derived _ _ => "<unknown>".toList
termination_by structural t => t
where
  /-- Writes types with a separator between them. -/
  renderAll (required : Level) (separator : List Char) : List TypeExpr → List Char
    | [] => []
    | [t] => t.render required
    | t :: ts => t.render required ++ separator ++ renderAll required separator ts
  termination_by structural ts => ts
  /-- Writes the entries of an object type with commas between them. -/
  renderProperties : List (Property TypeExpr) → List Char
    | [] => []
    | [⟨key, optional, value⟩] =>
      Text.literal key.toList ++ (if optional then ['?'] else []) ++ [':', ' '] ++
        value.render .function
    | ⟨key, optional, value⟩ :: ps =>
      Text.literal key.toList ++ (if optional then ['?'] else []) ++ [':', ' '] ++
        value.render .function ++ [',', ' '] ++ renderProperties ps
  termination_by structural ps => ps

def textWith (t : TypeExpr) : String :=
  String.ofList (t.render labels .function)

def text (t : TypeExpr) : String :=
  t.textWith fun _ => none

end TypeExpr

end TypeGuard
