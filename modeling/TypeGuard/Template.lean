import TypeGuard.Grammar.Parser
import TypeGuard.Callable.Invoke

/-! # Templates

A type expression may be given in parts: text, and values embedded between the texts. An embedded
value is spliced in as a numbered placeholder, which the user's own text must not contain.
-/

namespace TypeGuard

def placeholderName (index : Nat) : String :=
  placeholderPrefix ++ String.ofList (digitChars index)

def isIdentifier : List Char → Bool
  | [] => false
  | c :: cs => Grammar.isWordStart c && cs.all Grammar.isWordPart

/-- A template that was resolved: the text of the type, and what its names stand for, in order. -/
structure Resolved where
  text : List Char
  environment : List (String × Value)

def checkEmbedding (label : String) (v : Value) : Except DefinitionError Unit :=
  if v.isCallable then .ok () else .error (.badEmbedding label v.className)

/-- The named references of a template: each name an identifier, each value callable. -/
def namedReferences (display : Value → String) :
    List (Value × Value) → Except DefinitionError (List (String × Value))
  | [] => .ok []
  | (key, v) :: refs =>
    match key.text? with
    | some name => do
      if isIdentifier name.toList then
        checkEmbedding name v
        return (name, v) :: (← namedReferences display refs)
      else throw (.badName (display key))
    | none => throw (.badName (display key))

/-- Splices parts from the embedded value of a number on: the text, the text as written with a space
for each embedded value, and the environment. -/
def splice (index : Nat) :
    List Value → Except DefinitionError (List Char × List Char × List (String × Value))
  | [] => .ok ([], [], [])
  | part :: parts =>
    match part.text? with
    | some s => do
      let (text, written, env) ← splice index parts
      return (s.toList ++ text, s.toList ++ written, env)
    | none => do
      let name := placeholderName index
      checkEmbedding name part
      let (text, written, env) ← splice (index + 1) parts
      return (name.toList ++ text, ' ' :: written, (name, part) :: env)

def resolveTemplate (display : Value → String) (parts : List Value) (refs : List (Value × Value)) :
    Except DefinitionError Resolved := do
  let named ← namedReferences display refs
  let (text, written, embedded) ← splice 0 parts
  if Text.occursIn placeholderPrefix.toList written then throw .reservedPrefix
  else return ⟨text, named ++ embedded⟩

namespace World

def wording (w : World) (d : Value) : Description :=
  match d.text? with
  | some s => .text s
  | none => .value d (w.format d)

/-- The name under which a value is described: the one it declares, or that of its class. -/
def nameDescription (w : World) (v : Value) : Description :=
  match w.declaredName v with
  | some name => w.wording name
  | none => .text v.className

def target (w : World) (v : Value) : Target Value :=
  match v with
  | .agent _ id =>
    match w.agent? id with
    | some (.predicate p) => .predicate p.check
    | _ => .callback v
  | .type c _ => .class c
  | v => if v.isCallable then .callback v else .invalid v.className

/-- A value seen as a reference: described by itself, as strongly as its tree binds, or else by its
name. -/
def reference (w : World) (v : Value) : Reference Value :=
  let level :=
    match w.attribute? v "node" with
    | some (.node t) => t.level
    | _ => .primary
  match w.attribute? v "description" with
  | none => ⟨w.target v, w.nameDescription v, .primary⟩
  | some .none => ⟨w.target v, w.nameDescription v, .primary⟩
  | some d => ⟨w.target v, w.wording d, level⟩

def environment (w : World) (refs : List (String × Value)) : Environment Value :=
  refs.map fun (name, v) => (name, w.reference v)

/-- The references of a mapping whose keys are texts, the only ones that a type can name. -/
def textReferences (refs : List (Value × Value)) : List (String × Value) :=
  refs.filterMap fun (key, v) => key.text?.map (·, v)

end World

/-! ## Compiling templates -/

def parseTemplate (w : World) (parts : List Value) (refs : List (Value × Value)) :
    Except Error (TypeExpr × Environment Value) := do
  let r ← (resolveTemplate w.display parts refs).mapError Error.definition
  let t ← (TypeExpr.parse (String.ofList r.text)).mapError Error.grammar
  return (t, w.environment r.environment)

def compileType (w : World) (parts : List Value) (refs : List (Value × Value)) :
    Except Error (Predicate Value) := do
  let (t, env) ← parseTemplate w parts refs
  Predicate.compile env t

def compileSignature (w : World) (parts : List Value) (refs : List (Value × Value)) :
    Except Error (Signature Value) := do
  let (t, env) ← parseTemplate w parts refs
  Signature.compile env t

/-- Whether two compiled types are equal: equal trees with equal descriptions. -/
def Predicate.same (p q : Predicate Value) : Bool :=
  p.node.same q.node &&
    match p.description, q.description with
    | .text s, .text t => s = t
    | .value v _, .value u _ => v.sameKey u
    | .text s, .value v _ => v.text? = some s
    | .value v _, .text s => v.text? = some s

end TypeGuard
