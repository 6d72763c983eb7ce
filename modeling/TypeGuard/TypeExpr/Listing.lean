import TypeGuard.Text.Quoted
import TypeGuard.Number.Decimal
import TypeGuard.TypeExpr.Basic

/-! # Listings

A tree as lines, one for each type, indented by two spaces for each level. A property takes a line
for its key, and an arrow stands before the result of a function.
-/

namespace TypeGuard

def Literal.display : Literal → List Char
  | bool b => (if b then "True" else "False").toList
  | str s => Text.display s.toList
  | int i => intChars i
  | float x => x.chars

namespace TypeExpr

/-- The line of a type that shows what it holds, if its form does. -/
def label? : TypeExpr → Option (List Char)
  | literal v => some ("LiteralType(".toList ++ v.display ++ [')'])
  | primitive kind => some ("PrimitiveType(".toList ++ kind.name.toList ++ [')'])
  | named name => some ("GenericType(".toList ++ name.toList ++ [')'])
  | derived _ base => base.label?
  | _ => none

def heading (t : TypeExpr) : List Char :=
  t.label?.getD t.form.name.toList

/-- A line with its indentation; a negative indentation is none. -/
def indented (indent : Int) (cs : List Char) : List Char :=
  List.replicate (2 * indent).toNat ' ' ++ cs

def listing (indent : Int) : TypeExpr → List (List Char)
  | nullable t => indented indent (nullable t).heading :: t.listing (indent + 1)
  | array t => indented indent (array t).heading :: t.listing (indent + 1)
  | tuple ts => indented indent (tuple ts).heading :: ofList (indent + 1) ts
  | object ps => indented indent (object ps).heading :: ofProperties indent ps
  | union ts => indented indent (union ts).heading :: ofList (indent + 1) ts
  | intersection ts => indented indent (intersection ts).heading :: ofList (indent + 1) ts
  | function ps t =>
    indented indent (function ps t).heading :: ofList (indent + 1) ps ++
      indented (indent + 1) ['=', '>'] :: t.listing (indent + 2)
  | derived className t =>
    indented indent (derived className t).heading :: (t.listing indent).tail
  | t => [indented indent t.heading]
termination_by structural t => t
where
  /-- The lines of types one below the other. -/
  ofList (indent : Int) : List TypeExpr → List (List Char)
    | [] => []
    | t :: ts => t.listing indent ++ ofList indent ts
  termination_by structural ts => ts
  /-- The lines of the entries of an object type at the given indentation. -/
  ofProperties (indent : Int) : List (Property TypeExpr) → List (List Char)
    | [] => []
    | ⟨key, optional, value⟩ :: ps =>
      indented (indent + 1) (key.toList ++ (if optional then ['?'] else []) ++ [':']) ::
        value.listing (indent + 2) ++ ofProperties indent ps
  termination_by structural ps => ps

def listingText (indent : Int) (t : TypeExpr) : String :=
  String.ofList ((t.listing indent).flatMap (· ++ ['\n']))

end TypeExpr

end TypeGuard
