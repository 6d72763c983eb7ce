import TypeGuard.Check.Basic
import TypeGuard.Error
import TypeGuard.TypeExpr.Render

/-! # References

What the names of a type stand for when it is compiled. A reference is seen through what it is asked
for: the test it stands for, and how it is written in a description.
-/

namespace TypeGuard

inductive Target (ρ : Type) where
  /-- A compiled type: its own test. -/
  | predicate (check : Check ρ)
  | class (c : ClassInfo)
  /-- Anything else that can be called. -/
  | callback (r : ρ)
  /-- Something that cannot be called, of the named class. -/
  | invalid (className : String)

structure Reference (ρ : Type) where
  target : Target ρ
  description : Description
  /-- How strongly the description binds; a mere name never needs parentheses. -/
  level : Level

def Reference.check {ρ : Type} (r : Reference ρ) (name : String) :
    Except DefinitionError (Check ρ) :=
  match r.target with
  | .predicate check => .ok check
  | .class c => .ok (.instanceOf c)
  | .callback r => .ok (.callback r)
  | .invalid className => .error (.badReference name className)

abbrev Environment (ρ : Type) := List (String × Reference ρ)

namespace Environment

variable {ρ : Type} (env : Environment ρ)

def find? (name : String) : Option (Reference ρ) :=
  env.lookup name

def labels : Labels := fun name =>
  (env.find? name).map fun r => ⟨r.description.shown.toList, r.level⟩

/-- Whether a type at a place where texts are joined is described by a text. What is put in
parentheses becomes one. -/
def isText (required : Level) : TypeExpr → Bool
  | .named name =>
    match env.find? name with
    | some ⟨_, .value .., level⟩ => level.rank < required.rank
    | _ => true
  | _ => true

def joinError? (required : Level) (ts : List TypeExpr) : Option Error :=
  if ts.all (env.isText required) then none else some .misuse

section Raises

/-! What describes a reference is read whenever its name is written. A program can have it computed,
and then reading it may raise an error. -/

variable (raises : String → Option (ExceptionKind × String))

def readError? (name : String) : Option Error :=
  (env.find? name).bind fun _ => (raises name).map fun e => .raised e.1 e.2

/-- The first error while a type is written: a reference cannot be read, or something that is joined
is no text. Joined are the operand of `?`, the elements of a tuple, the members of a union or
intersection, and the parameters of a function; all but the first of these come from a generator. -/
def writeError? : TypeExpr → Option Error
  | .named name => env.readError? raises name
  | .nullable t => (writeError? t).or (env.joinError? .nullable [t])
  | .array t => writeError? t
  | .tuple ts => (ofList ts).or (env.joinError? .function ts)
  | .object ps => ofProperties ps
  | .union ts => (ofList ts).or (env.joinError? .intersection ts)
  | .intersection ts => (ofList ts).or (env.joinError? .nullable ts)
  | .function ps t => ((ofList ps).or (env.joinError? .function ps)).or (writeError? t)
  | _ => none
termination_by structural t => t
where
  ofList : List TypeExpr → Option Error
    | [] => none
    | t :: ts => ((writeError? t).map Error.sealed).or (ofList ts)
  termination_by structural ts => ts
  ofProperties : List (Property TypeExpr) → Option Error
    | [] => none
    | ⟨_, _, value⟩ :: ps => (writeError? value).or (ofProperties ps)
  termination_by structural ps => ps

/-- The description of a type: its text, or for a single name the description of its reference. -/
def describeWith (t : TypeExpr) : Except Error Description :=
  match writeError? env raises t with
  | some e => .error e
  | none =>
    match t with
    | .named name =>
      match env.find? name with
      | some r => .ok r.description
      | none => .ok (.text name)
    | t => .ok (.text (t.textWith env.labels))

end Raises

/-- The description of a type whose references are described by what is stored. -/
def describe (t : TypeExpr) : Except Error Description :=
  env.describeWith (fun _ => none) t

end Environment

end TypeGuard
