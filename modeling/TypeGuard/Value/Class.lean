/-! # Classes

A class is built in or defined by a program. What a value's class decides -- its name, its
ancestors, whether its instances can be called -- is fixed when the class is defined.
-/

namespace TypeGuard

inductive BuiltinClass where
  | object | noneType | bool | int | float | fraction | decimal | complex | str | bytes | set
  | tuple | list | dict | orderedDict
deriving DecidableEq, Repr

namespace BuiltinClass

def name : BuiltinClass → String
  | object => "object"
  | noneType => "NoneType"
  | bool => "bool"
  | int => "int"
  | float => "float"
  | fraction => "Fraction"
  | decimal => "Decimal"
  | complex => "complex"
  | str => "str"
  | bytes => "bytes"
  | set => "set"
  | tuple => "tuple"
  | list => "list"
  | dict => "dict"
  | orderedDict => "OrderedDict"

def all : List BuiltinClass :=
  [object, noneType, bool, int, float, fraction, decimal, complex, str, bytes, set, tuple, list, dict,
    orderedDict]

/-- A built-in class and those it derives from, nearest first. -/
def lineage : BuiltinClass → List BuiltinClass
  | object => [object]
  | bool => [bool, int, object]
  | orderedDict => [orderedDict, dict, object]
  | c => [c, object]

end BuiltinClass

/-- The identity of a class: definitions are numbered, since two of them may share a name. -/
inductive ClassId where
  | builtin (c : BuiltinClass)
  | defined (index : Nat)
deriving DecidableEq, Repr

structure ClassInfo where
  id : ClassId
  name : String
  /-- The class itself and its ancestors, nearest first. -/
  lineage : List ClassId
  /-- The built-in class that holds the content of the instances. -/
  base : BuiltinClass
  /-- The field names of a class of named tuples. -/
  fields : Option (List String)
  /-- The function that a call of an instance runs. -/
  call : Option Nat
  /-- Whether the parameters of instances can be found out. -/
  inspectable : Bool
  /-- The function that runs before an instance is made, with the arguments of the call. -/
  makes : Option Nat := none
  /-- The function that runs when an instance is made, with the arguments of the call. -/
  initializes : Option Nat := none
  /-- The one of these two whose parameters the class reports. -/
  reports : Option Nat := none
deriving DecidableEq, Repr

namespace ClassInfo

/-- Whether the arguments of a call reach the built-in class that holds the content: `object` takes
them if no function does, what can change when it is initialized, and all others when they are made.
-/
def takesArguments (c : ClassInfo) : Bool :=
  match c.base with
  | .object => c.makes.isNone && c.initializes.isNone
  | .list => c.initializes.isNone
  | .set => c.initializes.isNone
  | .dict => c.initializes.isNone
  | .orderedDict => c.initializes.isNone
  | _ => c.makes.isNone

def functions (c : ClassInfo) : List Nat :=
  c.makes.toList ++ c.initializes.toList

end ClassInfo

def ClassInfo.qualifiedName (c : ClassInfo) : String :=
  match c.id with
  | .builtin .fraction => "fractions.Fraction"
  | .builtin .decimal => "decimal.Decimal"
  | .builtin .orderedDict => "collections.OrderedDict"
  | .builtin b => b.name
  | .defined _ => "__main__." ++ c.name

def ClassInfo.ofBuiltin (c : BuiltinClass) : ClassInfo :=
  { id := .builtin c
    name := c.name
    lineage := c.lineage.map .builtin
    base := c
    fields := none
    call := none
    inspectable := true }

end TypeGuard
