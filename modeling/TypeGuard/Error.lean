import TypeGuard.Grammar.Error
import TypeGuard.Value.Basic

/-! # Errors

What can go wrong: a text that is no type expression, a type that cannot be compiled, a function or
a call that breaks its signature, and whatever the functions of the program raise.
-/

namespace TypeGuard

/-- How a type or a reference describes itself. A reference may have some value in place of a text;
such a value is written as `shown` where a text is needed. -/
inductive Description where
  | text (s : String)
  | value (v : Value) (shown : String)
deriving Inhabited

def Description.shown : Description → String
  | text s => s
  | value _ shown => shown

def Description.asValue : Description → Value
  | text s => .str s
  | value v _ => v

/-- Why a type cannot be compiled, or a template not resolved. -/
inductive DefinitionError where
  /-- An object type has a field that may be missing. -/
  | optionalField (key : String)
  /-- A type has no check; `kind` names its form. -/
  | unsupportedType (kind : String)
  /-- A signature was expected; `kind` names the form of what was given. -/
  | notASignature (kind : String)
  /-- The name of a reference, as shown, is no identifier. -/
  | badName (shown : String)
  /-- What is embedded under a label cannot be called. -/
  | badEmbedding (label className : String)
  /-- What a name of the environment stands for cannot be called. -/
  | badReference (name className : String)
  /-- The text uses the names kept for embedded references. -/
  | reservedPrefix
deriving DecidableEq, Repr

/-- The names kept for embedded references begin with this. -/
def placeholderPrefix : String := "$Ref"

namespace DefinitionError

def message : DefinitionError → String
  | optionalField key =>
    "Object type optional fields are unsupported (field " ++ Text.displayString key ++ ")"
  | unsupportedType kind => "Unsupported type annotation " ++ kind
  | notASignature kind => "Expected valid function type definition, got " ++ kind
  | badName shown => "Reference name " ++ shown ++ " is not a valid identifier"
  | badEmbedding label className =>
    "Embedded reference " ++ label ++ " must be a predicate or a class, got " ++ className
  | badReference name className =>
    "Reference " ++ name ++ " must be a predicate or a class, got " ++ className
  | reservedPrefix =>
    "Identifiers starting with " ++ placeholderPrefix ++ " are reserved for embedded references"

end DefinitionError

inductive ValidationError where
  /-- A function declares another number of parameters than the signature. -/
  | arity (expected received : Nat)
  /-- The parameters of a value, as shown, cannot be found out. -/
  | notInspectable (expected : Nat) (shown : String)
  | argumentCount (expected received : Nat)
  /-- The argument of this number, counted from one, is not of its type. -/
  | argument (index : Nat) (expected : Description) (value : Value)
  | result (expected : Description) (value : Value)

namespace ValidationError

def message : ValidationError → String
  | arity expected received =>
    s!"sig expected function of arity {expected} but received arity {received}"
  | notInspectable expected shown =>
    s!"sig expected function of arity {expected} but could not inspect {shown}"
  | argumentCount expected received =>
    s!"Expected function to be called with {expected} arguments but received {received}"
  | argument index expected _ => s!"Invalid {index}. argument, expected {expected.shown}."
  | result expected _ => s!"Invalid return value, expected {expected.shown}."

end ValidationError

inductive ExceptionKind where
  | value
  | type
  | runtime
  /-- What an iterator raises at its end. -/
  | stop
  /-- There is no room left. -/
  | memory
deriving DecidableEq, Repr

inductive Error where
  | grammar (e : GrammarError)
  | definition (e : DefinitionError)
  | validation (e : ValidationError)
  /-- Raised by a function of the program. -/
  | raised (kind : ExceptionKind) (message : String)
  /-- An operation was applied to something it does not accept. -/
  | misuse

/-- What becomes of an error that leaves a generator: the end of an iterator inside it would look like
its own. -/
def Error.sealed : Error → Error
  | raised .stop _ => raised .runtime "generator raised StopIteration"
  | e => e

@[simp] theorem Error.sealed_sealed (e : Error) : e.sealed.sealed = e.sealed := by
  rcases e with _ | _ | _ | ⟨_ | _ | _ | _ | _, _⟩ | _ <;> rfl

def Error.message : Error → String
  | grammar e => e.text
  | definition e => e.message
  | validation e => e.message
  | raised _ message => message
  | misuse => "Unsupported operation"

end TypeGuard
