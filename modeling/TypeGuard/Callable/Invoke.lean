import TypeGuard.Callable.Construct
import TypeGuard.Callable.Display
import TypeGuard.Callable.Protocol

/-! # Calls

What a call of a callable object does. A callable object mentions older ones only, so its meaning is
defined from the calls of those: `callAgent` follows the sequence of all of them. Objects that come
into being during a call are not called in it.
-/

namespace TypeGuard

/-! ## Functions -/

def Body.run (id : Nat) (args : List Value) : Body → Run Value
  | const v => return v
  | argument index =>
    match args[index]? with
    | some v => return v
    | none => throw .misuse
  | list => Run.ofState (World.newList args)
  | count => do return .int ((← Run.world).callCount id)
  | cycle vs => do
    match vs[((← Run.world).callCount id - 1) % vs.length]? with
    | some v => return v
    | none => throw .misuse
  | append index v =>
    match args[index]? with
    | some target =>
      match target.core with
      | .list items => do
        if ((← Run.world).items items).length < World.capacity then
          Run.ofState (World.appendItem items v)
          return target
        else throw (.raised .memory "")
      | _ => throw .misuse
    | none => throw .misuse
  | raise kind message => throw (.raised kind message)
  | isString => return .bool (args.head?.any Value.isString)
  | above bound =>
    match args with
    | .int i :: _ => return .bool (bound < i)
    | _ => return .bool false

def recordCall (id : Nat) (name : String) (args : List Value) : Run Unit :=
  Run.ofState fun w =>
    ((), { w with calls := ⟨id, name, args.map w.snapshot⟩ :: w.calls })

def Function.call (f : Function) (id : Nat) (args : Arguments) : Run Value :=
  match Parameter.bind .none f.params args.positional args.keywords with
  | none => throw .misuse
  | some vs => do
    recordCall id f.name vs
    f.body.run id vs

/-! ## Compiled types -/

/-- Asks a callback about a value: its result counts as true or false. -/
def askCallback (call : Caller) (callback v : Value) : Run Bool := do
  let answer ← call callback (.ofList [v])
  return (← Run.world).truth answer

/-- How attributes are read and how classes tell their instances, where programs can say how. -/
structure Hooks where
  attributeOf : Value → String → Run (Option Value)
  isInstance : Value → ClassInfo → Run Bool

/-- Attributes are stored, and an instance is told by its class. -/
def Hooks.plain : Hooks :=
  ⟨fun v key => return v.attribute? key, fun v c => return v.isInstance c⟩

def Hooks.surroundings (hooks : Hooks) (call : Caller) : Surroundings Run Value where
  length id := do return ((← Run.world).items id).length
  item id index := do return ((← Run.world).items id)[index]?
  capacity := World.capacity
  attributeOf := hooks.attributeOf
  isInstance := hooks.isInstance
  ask := askCallback call
  sealed := Run.sealed

/-- Runs a check, calling its callbacks, where attributes and classes are as programs say. -/
def Check.testWith (hooks : Hooks) (call : Caller) (c : Check Value) (v : Value) : Run Bool :=
  c.run (hooks.surroundings call) v

def Check.test (call : Caller) (c : Check Value) (v : Value) : Run Bool :=
  c.testWith .plain call v

def Predicate.gate (call : Caller) (p : Predicate Value) : Gate Run :=
  ⟨p.check.test call, p.description⟩

/-! ## Signatures and guards -/

/-- Puts a value under a signature, if its arity is that of the signature. -/
def Signature.wrap (s : Signature Value) (f : Value) : Run Value := do
  let w ← Run.world
  match w.arity f with
  | none => throw (.validation (.notInspectable s.arity (w.display f)))
  | some received =>
    if received ≠ s.arity then throw (.validation (.arity s.arity received))
    else Run.ofState <|
      World.newAgent (.guard ⟨f, w.shownName f, w.declaredName f, s.params, s.result, []⟩) false

def Guard.call (call : Caller) (g : Guard) (args : Arguments) : Run Value :=
  match args.keywords with
  | [] =>
    guardedCall (g.params.map (Predicate.gate call)) (g.result.gate call)
      (fun vs => call g.wrapped (.ofList vs)) args.positional
  | _ => throw .misuse

/-! ## Callable objects -/

/-- A call of a callable object, given the calls of what it mentions. -/
def Agent.call (call : Caller) (id : Nat) (args : Arguments) : Agent → Run Value
  | function f => f.call id args
  | application callee fixed keywords _ => call callee (args.behind fixed keywords)
  | predicate p =>
    match args.single "value" with
    | some v => do return .bool (← p.check.test call v)
    | none => throw .misuse
  | signature s _ =>
    match args.single "func" with
    | some f => s.wrap f
    | none => throw .misuse
  | guard g => g.call call args

def callValue (agent : Nat → Arguments → Run Value) : Caller
  | .agent _ id, args => agent id args
  | .type c attributes, args => c.new agent attributes args
  | .inst _ c _ _, args =>
    match c.call with
    | some id => agent id args
    | none => throw .misuse
  | _, _ => throw .misuse

/-- A call of the callable object of a number, among all of them. -/
def callAgent : List Agent → Nat → Arguments → Run Value
  | [], _, _ => throw .misuse
  | a :: older, id, args =>
    if id = older.length then a.call (callValue (callAgent older)) id args
    else callAgent older id args

def Value.call : Caller := fun v args => do
  callValue (callAgent (← Run.world).agents) v args

end TypeGuard
