import TypeGuard.Error

/-! # The guard protocol

What a guard does in a call, over any effects: it counts the arguments, tests them in order, runs
the function, and tests the result. The first test that fails ends the call with an error, and
nothing after it takes place.
-/

namespace TypeGuard

/-- A type as a guard uses it: a test with effects, and the description for its error. -/
structure Gate (m : Type → Type) where
  accepts : Value → m Bool
  description : Description

section Protocol

variable {m : Type → Type} [Monad m] [MonadExceptOf Error m]

/-- Tests arguments in order, numbered from `index` on. -/
def checkArguments (index : Nat) : List (Gate m) → List Value → m Unit
  | p :: ps, v :: vs => do
    if ← p.accepts v then checkArguments (index + 1) ps vs
    else throw (Error.validation (.argument index p.description v))
  | _, _ => return ()

def checkResult (p : Gate m) (v : Value) : m Value := do
  if ← p.accepts v then return v
  else throw (Error.validation (.result p.description v))

def guardedCall (params : List (Gate m)) (result : Gate m) (f : List Value → m Value)
    (args : List Value) : m Value := do
  if args.length ≠ params.length then
    throw (Error.validation (.argumentCount params.length args.length))
  else
    checkArguments 1 params args
    let v ← f args
    checkResult result v

end Protocol

end TypeGuard
