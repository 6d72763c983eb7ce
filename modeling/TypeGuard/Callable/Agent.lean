import TypeGuard.Check.Compile
import TypeGuard.Callable.Parameter

/-! # Callable objects

The definitions of callable objects: functions of the program, functions with some arguments fixed,
compiled types and signatures, and guards. Callbacks are values, so checks here are over values.
-/

namespace TypeGuard

inductive Body where
  | const (v : Value)
  | argument (index : Nat)
  /-- Returns its arguments as a list. -/
  | list
  /-- Returns how often the function was called. -/
  | count
  /-- Returns one value after the other, over and over. -/
  | cycle (vs : List Value)
  /-- Appends a value to an argument, a list, and returns that list. -/
  | append (index : Nat) (v : Value)
  | raise (kind : ExceptionKind) (message : String)
  | isString
  /-- Whether the first argument is an integer above a bound. -/
  | above (bound : Int)
deriving Inhabited

structure Function where
  name : String
  params : List Parameter
  body : Body
  attributes : List (String × Value) := []
deriving Inhabited

/-- A function under a signature. The name it shows is that of the function, or of the function's
class; the name it declares is the function's, if that declares one. -/
structure Guard where
  wrapped : Value
  shownName : String
  declaredName : Option Value
  params : List (Predicate Value)
  result : Predicate Value
  /-- What the program gave it later. -/
  attributes : List (String × Value) := []

inductive Agent where
  | function (f : Function)
  /-- A function with leading arguments and some keywords fixed. -/
  | application (callee : Value) (args : List Value) (keywords : List (String × Value))
      (attributes : List (String × Value))
  | predicate (p : Predicate Value)
  | signature (s : Signature Value) (attributes : List (String × Value))
  | guard (g : Guard)
deriving Inhabited

namespace Agent

/-- The attributes that the program gave a callable object; a compiled type takes none. -/
def attributes : Agent → List (String × Value)
  | function f => f.attributes
  | application _ _ _ attributes => attributes
  | predicate _ => []
  | signature _ attributes => attributes
  | guard g => g.attributes

end Agent

end TypeGuard
