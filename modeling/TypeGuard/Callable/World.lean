import TypeGuard.Callable.Agent

/-! # Worlds

What changes while a program runs: the items of lists, the callable objects defined so far, and the
calls made of functions. A callable object mentions older ones only, so the list of all of them, the
newest first, is a sequence in which the meaning of each is settled by the rest.
-/

namespace TypeGuard

inductive Snapshot where
  | none
  | undefined
  | bool (b : Bool)
  | int (i : Int)
  | float (x : Binary64)
  | fraction (q : Rat)
  | str (s : String)
  | rawStr (codes : List Nat)
  | list (items : List Snapshot)
  | tuple (items : List Snapshot)
  | dict (entries : List (Snapshot × Snapshot))
  | type (id : ClassId)
  | function (name : String)
  | predicate (description : Snapshot)
  | signature (description : String)
  | guard (text : String)
  /-- Any other value, known by its class. -/
  | other (className : String)
deriving Inhabited

/-- A call of a function, with its arguments as they were then. -/
structure CallRecord where
  callee : Nat
  name : String
  args : List Snapshot

structure World where
  /-- The items of every list, the oldest list first. -/
  lists : List (List Value)
  /-- The callable objects, the newest first. -/
  agents : List Agent
  /-- The number of classes defined. -/
  classes : Nat
  /-- The number of instances made. -/
  instances : Nat
  /-- The calls of functions, the latest first. -/
  calls : List CallRecord

namespace World

def empty : World :=
  ⟨[], [], 0, 0, []⟩

def items (w : World) (id : Nat) : List Value :=
  w.lists.getD id []

def agent? (w : World) (id : Nat) : Option Agent :=
  if id < w.agents.length then w.agents[w.agents.length - 1 - id]? else none

def callCount (w : World) (id : Nat) : Nat :=
  (w.calls.filter (·.callee = id)).length

def newList (vs : List Value) : StateM World Value := fun w =>
  (.list w.lists.length, { w with lists := w.lists ++ [vs] })

def kindOf (isMethod : Bool) : Agent → AgentKind
  | .function _ => if isMethod then .method else .function
  | .application .. => .application
  | .predicate _ => .predicate
  | .signature .. => .signature
  | .guard _ => .guard

def newAgent (a : Agent) (isMethod : Bool) : StateM World Value := fun w =>
  (.agent (kindOf isMethod a) w.agents.length, { w with agents := a :: w.agents })

def newInstance (c : ClassInfo) (content : Option Value) (attributes : List (String × Value)) :
    StateM World Value := fun w =>
  (.inst w.instances c content attributes, { w with instances := w.instances + 1 })

/-- No list grows beyond this many items. -/
def capacity : Nat := 0xfffffffffffffff

def appendItem (id : Nat) (v : Value) : StateM World Unit := fun w =>
  ((), { w with lists := w.lists.modify id (· ++ [v]) })

/-! ## Truth -/

/-- Whether a value counts as true: absent values, zeros and what is empty do not. -/
def truth (w : World) (v : Value) : Bool :=
  match v.core with
  | .none => false
  | .undefined => false
  | .bool b => b
  | .int i => i ≠ 0
  | .float x => !(Magnitude.ofBinary64 x).isZero
  | .fraction q => q ≠ 0
  | .decimal _ m => !m.isZero
  | .complex re im => !((Magnitude.ofBinary64 re).isZero && (Magnitude.ofBinary64 im).isZero)
  | .str s => s ≠ ""
  | .rawStr codes => !codes.isEmpty
  | .bytes content => !content.isEmpty
  | .set members => !members.isEmpty
  | .tuple vs => !vs.isEmpty
  | .list id => !(w.items id).isEmpty
  | .dict _ entries => !entries.isEmpty
  | _ => true

/-! ## Attributes and parameters -/

end World

def Agent.ownAttribute? (key : String) : Agent → Option Value
  | .function f => if key = "__name__" then some (.str f.name) else none
  | .application .. => none
  | .predicate p =>
    if key = "node" then some (.node p.node)
    else if key = "description" then some p.description.asValue
    else none
  | .signature s _ =>
    if key = "node" then some (.node s.node)
    else if key = "description" then some (.str s.description)
    else none
  | .guard g =>
    if key = "__name__" then g.declaredName
    else if key = "__wrapped__" then some g.wrapped
    else none

/-- An attribute of a callable object. Only the name of a function is not replaced by an attribute of
the program's. -/
def Agent.attribute? (a : Agent) (key : String) : Option Value :=
  match a with
  | .function f => (ownAttribute? key (.function f)).or (f.attributes.lookup key)
  | a => (a.attributes.lookup key).or (a.ownAttribute? key)

namespace World

/-- An attribute of a value. A class has its name as one. -/
def attribute? (w : World) (v : Value) (key : String) : Option Value :=
  match v with
  | .agent _ id => (w.agent? id).bind (·.attribute? key)
  | .type c _ => if key = "__name__" then some (.str c.name) else v.attribute? key
  | .routine _ name => if key = "__name__" then some (.str name) else none
  | v => v.attribute? key

/-- The name that a callable declares. That of an instance may be any value. -/
def declaredName (w : World) (v : Value) : Option Value :=
  w.attribute? v "__name__"

def builtinParameters : BuiltinClass → Option (List Parameter)
  | .object => some []
  | .list => some [⟨"iterable", .positionalOnly, true⟩]
  | .tuple => some [⟨"iterable", .positionalOnly, true⟩]
  | .float => some [⟨"x", .positionalOnly, true⟩]
  | .complex => some [⟨"real", .positional, true⟩, ⟨"imag", .positional, true⟩]
  | .fraction =>
    some [⟨"numerator", .positional, true⟩, ⟨"denominator", .positional, true⟩,
      ⟨"_normalize", .keywordOnly, true⟩]
  | .decimal => some [⟨"value", .positional, true⟩, ⟨"context", .positional, true⟩]
  | _ => none

def contentParameters (c : ClassInfo) : Option (List Parameter) :=
  match c.fields with
  | some fields => some (fields.map fun name => ⟨name, .positional, false⟩)
  | none => builtinParameters c.base

/-! ### Reported parameters

What can be found out about the parameters of a value. A value that wraps another one reports the
parameters of that. -/

/-- What a function reports to those who ask for it as a method: its parameters without the first. -/
def withoutFirst : List Parameter → Option (List Parameter)
  | [] => none
  | p :: ps =>
    if p.isPositional then some ps else if p.kind = .rest then some (p :: ps) else none

/-- The parameters that a value with some attributes reports: what it wraps may tell them, unless a
signature among its attributes does. None of the values here is such a signature. -/
def reported (attributes : List (String × Value)) (wrapped : Option (Option (List Parameter)))
    (own : Option (List Parameter)) : Option (List Parameter) :=
  match attributes.lookup "__signature__" with
  | some .none => own
  | some _ => none
  | none => wrapped.getD own

def valueParameters (agent : AgentKind → Nat → Option (List Parameter)) :
    Value → Option (List Parameter)
  | .agent kind id => agent kind id
  | .type c attributes =>
    reported attributes (ofWrapped attributes) <|
      if !c.inspectable then none
      else match c.reports with
        | some id => agent .method id
        | none => contentParameters c
  | .inst _ c _ attributes =>
    reported attributes (ofWrapped attributes) <|
      if c.inspectable then c.call.bind (agent .method) else none
  | .routine owner name => (owner.routine? name).bind Routines.params
  | _ => none
termination_by structural v => v
where
  /-- The parameters that the value wrapped by the owner of some attributes reports. -/
  ofWrapped : List (String × Value) → Option (Option (List Parameter))
    | [] => none
    | (key, v) :: attributes =>
      if key = "__wrapped__" then some (valueParameters agent v) else ofWrapped attributes
  termination_by structural attributes => attributes

def reportedByAgent (older : AgentKind → Nat → Option (List Parameter)) (kind : AgentKind)
    (a : Agent) : Option (List Parameter) :=
  let ofWrapped := valueParameters.ofWrapped older a.attributes
  match a with
  | .function f =>
    let unbound := ofWrapped.map fun ps => if kind = .method then ps.bind withoutFirst else ps
    reported f.attributes unbound (some f.params)
  | .application callee args keywords attributes =>
    reported attributes ofWrapped <|
      (valueParameters older callee).bind fun ps => Parameter.fix ps args keywords
  | .predicate _ => some [⟨"value", .positional, false⟩]
  | .signature _ attributes => reported attributes ofWrapped (some [⟨"func", .positional, false⟩])
  | .guard g => reported g.attributes ofWrapped (valueParameters older g.wrapped)

/-- The parameters that the callable object of a number reports, found through what it wraps. -/
def agentParameters : List Agent → AgentKind → Nat → Option (List Parameter)
  | [], _, _ => none
  | a :: older, kind, id =>
    if id = older.length then reportedByAgent (agentParameters older) kind a
    else agentParameters older kind id

def calledBy : Value → List Nat
  | .agent _ id => [id]
  | .type c _ => c.functions
  | .inst _ c _ _ => c.call.toList
  | _ => []

/-- Whether a value can be called, all that a call of it runs being there. -/
def canCall (w : World) (v : Value) : Bool :=
  v.isCallable && (calledBy v).all (· < w.agents.length)

/-- The parameters that a value reports, if it can be called and they can be found out. -/
def parameters (w : World) (v : Value) : Option (List Parameter) :=
  if w.canCall v then valueParameters (agentParameters w.agents) v else none

def arity (w : World) (v : Value) : Option Nat :=
  (w.parameters v).map Parameter.arity

end World

end TypeGuard
