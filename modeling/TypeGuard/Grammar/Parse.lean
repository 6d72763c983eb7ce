import TypeGuard.Grammar.Token

/-! # The grammar of type expressions

Loosest first: functions, unions, intersections, the prefix `?`, and array suffixes on primary
types. Where a text opens with a parenthesis it may be a function type or a type in parentheses; the
type after the parenthesis serves both readings. The main definition is `parseType`.
-/

namespace TypeGuard.Grammar

open Text TypeExpr

def after {α : Type} (delimiter : Attempt Unit) (p : Reader α) : Attempt α := fun cs =>
  match delimiter cs with
  | some (_, rest) => p.attempt rest
  | none => none

def moreElements {α : Type} (delimiter : Attempt Unit) (p : Reader α) (cs : List Char) :
    List α × List Char :=
  many (after delimiter p) cs

def elements {α : Type} (delimiter : Attempt Unit) (p : Reader α) (cs : List Char) :
    List α × List Char :=
  match p cs with
  | .error _ => ([], cs)
  | .ok (a, rest) =>
    let (as, rest) := moreElements delimiter p rest
    (a :: as, rest)

/-- A list of one member is that member. -/
def foldMembers (node : List TypeExpr → TypeExpr) : List TypeExpr → TypeExpr
  | [t] => t
  | ts => node ts

def keyword (word : String) : Option TypeExpr :=
  match word with
  | "true" => some (literal (.bool true))
  | "false" => some (literal (.bool false))
  | "string" => some (primitive .string)
  | "number" => some (primitive .number)
  | "boolean" => some (primitive .boolean)
  | "bool" => some (primitive .boolean)
  | "null" => some null
  | "void" => some void
  | "any" => some any
  | _ => none

def propertyKey : Attempt String := fun cs =>
  match identifier cs with
  | some r => some r
  | none => quoted cs

/-- The name of a parameter with its colon, which leave no trace in the tree. -/
def paramName : Attempt Unit := fun cs =>
  match identifier cs with
  | some (_, rest) => symbol ':' rest
  | none => none

def propertyDelimiter : Attempt Unit := fun cs =>
  match symbol ',' cs with
  | some r => some r
  | none => symbol ';' cs

section Rules

variable (type : Reader TypeExpr)

/-- `key: T` or `key?: T`. -/
def property : Reader (Property TypeExpr) := fun cs => do
  let (key, rest) ← require propertyKey .type cs
  let mark := symbol '?' rest
  let rest := optional (symbol '?') rest
  let (_, rest) ← require (symbol ':') .type rest
  let (value, rest) ← type rest
  return (⟨key, mark.isSome, value⟩, rest)

def arrayArgument : Reader TypeExpr := fun cs => do
  let (_, rest) ← require (symbol '<') .type cs
  let (element, rest) ← type rest
  let (_, rest) ← require (symbol '>') .type rest
  return (array element, rest)

/-- A word is a keyword, the head of `Array<T>`, or a name. -/
def wordType (word : String) (rest : List Char) : TypeExpr × List Char :=
  if rest.head? = some '$' then (named word, rest)
  else if word = "Array" then
    match arrayArgument type rest with
    | .ok r => r
    | .error _ => (named word, rest)
  else ((keyword word).getD (named word), rest)

def tupleBody : Reader TypeExpr := fun cs => do
  let (ts, rest) := elements (symbol ',') type cs
  let (_, rest) ← require (symbol ']') .closeBracket rest
  return (tuple ts, rest)

/-- The rest of an object type after its opening brace; the last delimiter may be left out. -/
def objectBody : Reader TypeExpr := fun cs => do
  let (ps, rest) := elements propertyDelimiter (property type) cs
  let rest := if ps.isEmpty then rest else optional propertyDelimiter rest
  let (_, rest) ← require (symbol '\x7d') .closeBrace rest
  return (object ps, rest)

/-- The rest of a type in parentheses, given how the type inside was read. -/
def closeGroup (inner : Except Failure (TypeExpr × List Char)) :
    Except Failure (TypeExpr × List Char) := do
  let (t, rest) ← inner
  let (_, rest) ← require (symbol ')') .closeParen rest
  return (t, rest)

/-- A type without prefix or suffix. -/
def primary : Reader TypeExpr := fun cs =>
  let start := skipGaps cs
  match start with
  | [] => .error ⟨0, .type⟩
  | c :: rest =>
    if c = '[' then tupleBody type rest
    else if c = '\x7b' then objectBody type rest
    else if c = '(' then closeGroup (type rest)
    else if isWordStart c then
      .ok (wordType type (String.ofList (c :: rest.takeWhile isWordPart))
        (rest.dropWhile isWordPart))
    else
      match numeral start with
      | some (v, rest) => .ok (literal v, rest)
      | none =>
        match quoted start with
        | some (s, rest) => .ok (literal (.str s), rest)
        | none =>
          match placeholder start with
          | some (name, rest) => .ok (named name, rest)
          | none => .error ⟨start.length, .type⟩

def suffixes (t : TypeExpr) (cs : List Char) : TypeExpr × List Char :=
  let (marks, rest) := many arraySuffix cs
  (marks.foldl (fun t _ => array t) t, rest)

def postfixType : Reader TypeExpr := fun cs => do
  let (t, rest) ← primary type cs
  return suffixes t rest

def prefixType : Reader TypeExpr := fun cs => do
  let (marks, rest) := many (symbol '?') cs
  let (t, rest) ← postfixType type rest
  return (marks.foldl (fun t _ => nullable t) t, rest)

def intersectionRest (t : TypeExpr) (cs : List Char) : TypeExpr × List Char :=
  let (ts, rest) := moreElements (symbol '&') (prefixType type) cs
  (foldMembers intersection (t :: ts), rest)

def intersectionType : Reader TypeExpr := fun cs => do
  let (t, rest) ← prefixType type (optional (symbol '&') cs)
  return intersectionRest type t rest

def unionRest (t : TypeExpr) (cs : List Char) : TypeExpr × List Char :=
  let (ts, rest) := moreElements (symbol '|') (intersectionType type) cs
  (foldMembers union (t :: ts), rest)

def unionType : Reader TypeExpr := fun cs => do
  let (t, rest) ← intersectionType type (optional (symbol '|') cs)
  return unionRest type t rest

def param : Reader TypeExpr := fun cs => type (optional paramName cs)

/-- The first parameter after an opening parenthesis; without a name it is the type read there. -/
def firstParam (inner : Except Failure (TypeExpr × List Char)) : Reader TypeExpr := fun cs =>
  match paramName cs with
  | some (_, rest) => type rest
  | none => inner

def params (inner : Except Failure (TypeExpr × List Char)) (cs : List Char) :
    List TypeExpr × List Char :=
  match firstParam type inner cs with
  | .error _ => ([], cs)
  | .ok (t, rest) =>
    let (ts, rest) := moreElements (symbol ',') (param type) rest
    (t :: ts, rest)

def functionBody (inner : Except Failure (TypeExpr × List Char)) : Reader TypeExpr := fun cs => do
  let (ts, rest) := params type inner cs
  let (_, rest) ← require (symbol ')') .closeParen rest
  let (_, rest) ← require Grammar.arrow .arrow rest
  let (result, rest) ← type rest
  return (function ts result, rest)

/-- A type whose first character is an opening parenthesis, given the text after it. -/
def parenthesizedType : Reader TypeExpr := fun cs =>
  let inner := type cs
  match functionBody type inner cs with
  | .ok r => .ok r
  | .error f =>
    match closeGroup inner with
    | .error g => .error (f.furthest g)
    | .ok (t, rest) =>
      let (t, rest) := suffixes t rest
      let (t, rest) := intersectionRest type t rest
      .ok (unionRest type t rest)

/-- One level of the grammar over a reader for the types inside. -/
def typeLevel : Reader TypeExpr := fun cs =>
  match symbol '(' cs with
  | some (_, rest) => parenthesizedType type rest
  | none => unionType type cs

end Rules

def parseUpTo : Nat → Reader TypeExpr
  | 0 => fun cs => .error ⟨(skipGaps cs).length, .type⟩
  | depth + 1 => typeLevel (parseUpTo depth)

/-- Reads a type; every level of nesting takes a character. -/
def parseType : Reader TypeExpr := fun cs =>
  parseUpTo (cs.length + 1) cs

def parseText (cs : List Char) : Except Failure TypeExpr := do
  let (t, rest) ← parseType cs
  match skipGaps rest with
  | [] => return t
  | rest => throw ⟨rest.length, .endOfText⟩

end TypeGuard.Grammar
