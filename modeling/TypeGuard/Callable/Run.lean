import TypeGuard.Callable.World

/-! # Effects

A computation reads and changes the world and may fail; what it changed before a failure stays
changed.
-/

namespace TypeGuard

/-- Computations that change the world and may fail; a failure keeps the changes made before it. -/
abbrev Run := ExceptT Error (StateM World)

structure Arguments where
  positional : List Value
  keywords : List (String × Value)

namespace Arguments

def ofList (vs : List Value) : Arguments :=
  ⟨vs, []⟩

/-- Arguments behind fixed ones; a keyword takes the place of a fixed one of its name. -/
def behind (args : Arguments) (fixed : List Value) (keywords : List (String × Value)) : Arguments :=
  ⟨fixed ++ args.positional,
    keywords.filter (fun k => (args.keywords.lookup k.1).isNone) ++ args.keywords⟩

def single (name : String) (args : Arguments) : Option Value :=
  match args.positional, args.keywords with
  | [v], [] => some v
  | [], [(key, v)] => if key = name then some v else none
  | _, _ => none

end Arguments

namespace Run

def ofState {α : Type} (x : StateM World α) : Run α :=
  liftM x

def world : Run World :=
  ofState get

def ofExcept {α : Type} (x : Except Error α) : Run α :=
  ExceptT.mk (pure x)

def sealed {α : Type} (x : Run α) : Run α :=
  ExceptT.mk (Except.mapError Error.sealed <$> x.run)

end Run

abbrev Caller := Value → Arguments → Run Value

end TypeGuard
