import TypeGuard.Check.Reference

/-! # Compiling types

A type becomes a check, with its names looked up in an environment. The names `Function` and
`Object` are fixed; a name without a reference stands for the class of that name. The first type
without a check, in the order in which the text is written, is the error.
-/

namespace TypeGuard

namespace TypeExpr

def firstOptional (ps : List (Property TypeExpr)) : Option String :=
  (ps.find? (·.optional)).map Property.key

variable {ρ : Type} (env : Environment ρ)

def compileName (name : String) : Except DefinitionError (Check ρ) :=
  if name = "Function" then .ok .callable
  else if name = "Object" then .ok .structured
  else match env.find? name with
    | some r => r.check name
    | none => .ok (.nominal name)

def compilePrimitive : Primitive → Except DefinitionError (Check ρ)
  | .string => .ok .string
  | .number => .ok .number
  | .boolean => .ok .boolean
  | .unknown name => .error (.unsupportedType ("PrimitiveType(" ++ name ++ ")"))

def compile : TypeExpr → Except DefinitionError (Check ρ)
  | literal v => .ok (.literal v)
  | primitive kind => compilePrimitive kind
  | null => .ok .null
  | void => .ok .void
  | any => .ok .any
  | nullable t => do return .nullable (← t.compile)
  | array t => do return .array (← t.compile)
  | tuple ts => do return .tuple (← compileAll ts)
  | object ps =>
    match firstOptional ps with
    | some key => .error (.optionalField key)
    | none => do return .object (← compileFields ps)
  | union ts => do return .union (← compileAll ts)
  | intersection ts => do return .intersection (← compileAll ts)
  | named name => compileName env name
  | function _ _ => .error (.unsupportedType Form.function.name)
  | stray _ => .error (.unsupportedType Form.stray.name)
  | foreign className => .error (.unsupportedType className)
  | derived className _ => .error (.unsupportedType className)
termination_by structural t => t
where
  compileAll : List TypeExpr → Except DefinitionError (List (Check ρ))
    | [] => .ok []
    | t :: ts => do
      let c ← t.compile
      let cs ← compileAll ts
      return c :: cs
  termination_by structural ts => ts
  compileFields : List (Property TypeExpr) → Except DefinitionError (List (String × Check ρ))
    | [] => .ok []
    | ⟨key, _, value⟩ :: ps => do
      let c ← value.compile
      let fields ← compileFields ps
      return (key, c) :: fields
  termination_by structural ps => ps

end TypeExpr

/-- A compiled type: the tree it comes from, its check, and how it describes itself. -/
structure Predicate (ρ : Type) where
  node : TypeExpr
  check : Check ρ
  description : Description

def Predicate.compileWith {ρ : Type} (env : Environment ρ)
    (raises : String → Option (ExceptionKind × String)) (t : TypeExpr) :
    Except Error (Predicate ρ) := do
  let check ← (t.compile env).mapError Error.definition
  let description ← env.describeWith raises t
  return ⟨t, check, description⟩

def Predicate.compile {ρ : Type} (env : Environment ρ) (t : TypeExpr) :
    Except Error (Predicate ρ) :=
  Predicate.compileWith env (fun _ => none) t

/-- A compiled function type: the types of its parameters and of its result. -/
structure Signature (ρ : Type) where
  node : TypeExpr
  params : List (Predicate ρ)
  result : Predicate ρ
  description : String

namespace Signature

variable {ρ : Type}

/-- The parameters and the result of a function type, or of a class derived from that. -/
def parts? : TypeExpr → Option (List TypeExpr × TypeExpr)
  | .function params result => some (params, result)
  | .derived _ base => parts? base
  | _ => none

def parts (t : TypeExpr) : Except DefinitionError (List TypeExpr × TypeExpr) :=
  match parts? t with
  | some p => .ok p
  | none => .error (.notASignature t.form.name)

/-- The description of a signature; the descriptions of its parameters must be texts. -/
def describe (params : List (Predicate ρ)) (result : Predicate ρ) : Except Error String := do
  let texts ← params.mapM fun p =>
    match p.description with
    | .text s => Except.ok s
    | .value .. => Except.error Error.misuse
  return "(" ++ ", ".intercalate texts ++ ") => " ++ result.description.shown

def compile (env : Environment ρ) (t : TypeExpr) : Except Error (Signature ρ) := do
  let (params, result) ← (parts t).mapError Error.definition
  let params ← params.mapM (Predicate.compile env)
  let result ← Predicate.compile env result
  return ⟨t, params, result, ← describe params result⟩

def arity (s : Signature ρ) : Nat :=
  s.params.length

end Signature

end TypeGuard
