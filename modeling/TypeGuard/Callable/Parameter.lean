/-! # Parameters

The parameters that a callable declares, how many of them it needs by position, and how the
arguments of a call are bound to them.
-/

namespace TypeGuard

inductive ParameterKind where
  | positionalOnly
  | positional
  /-- Takes all further arguments. -/
  | rest
  | keywordOnly
  /-- Takes all further keywords. -/
  | keywords
deriving DecidableEq, Repr

structure Parameter where
  name : String
  kind : ParameterKind
  hasDefault : Bool
deriving DecidableEq, Repr

namespace Parameter

def isPositional (p : Parameter) : Bool :=
  p.kind = .positionalOnly || p.kind = .positional

def isRequired (p : Parameter) : Bool :=
  p.isPositional && !p.hasDefault

/-- The declared arity: the number of leading positional parameters without a default. -/
def arity (ps : List Parameter) : Nat :=
  (ps.takeWhile isRequired).length

def takesKeyword (p : Parameter) (key : String) : Bool :=
  (p.kind = .positional || p.kind = .keywordOnly) && p.name = key

/-- Whether arguments and keywords have a place: no more arguments than positional parameters unless
the rest is taken, and every keyword names a parameter that has no argument yet, unless further
keywords are taken. -/
def admits {α : Type} (ps : List Parameter) (args : List α) (keywords : List (String × α)) : Bool :=
  let positional := ps.filter isPositional
  (args.length ≤ positional.length || ps.any (·.kind = .rest)) &&
    keywords.all fun (key, _) =>
      match ps.find? (·.takesKeyword key) with
      | some p => !(positional.take args.length).contains p
      | none => ps.any (·.kind = .keywords)

/-- Binds positional parameters in order: to the arguments, then to keywords, then to `absent` if
they have a default. -/
def bindPositional {α : Type} (absent : α) (keywords : List (String × α)) :
    List Parameter → List α → Option (List α)
  | [], _ => some []
  | _ :: ps, a :: as => (bindPositional absent keywords ps as).map (a :: ·)
  | p :: ps, [] =>
    let given := if p.kind = .positional then keywords.lookup p.name else none
    match given, p.hasDefault with
    | some a, _ => (bindPositional absent keywords ps []).map (a :: ·)
    | none, true => (bindPositional absent keywords ps []).map (absent :: ·)
    | none, false => none

def bind {α : Type} (absent : α) (ps : List Parameter) (args : List α)
    (keywords : List (String × α)) : Option (List α) :=
  if admits ps args keywords &&
      ps.all fun p => p.kind ≠ .keywordOnly || p.hasDefault || (keywords.lookup p.name).isSome then
    bindPositional absent keywords (ps.filter isPositional) args
  else none

/-- The parameter with a default, if a keyword is fixed for it. -/
def withFixed (keys : List String) (p : Parameter) : Parameter :=
  if (p.kind = .positional || p.kind = .keywordOnly) && keys.contains p.name then
    { p with hasDefault := true }
  else p

/-- From the first positional parameter that a keyword fixes on, positional parameters can be given
by keyword only, and no further arguments are taken. -/
def keywordOnlyFrom (keys : List String) : List Parameter → List Parameter
  | [] => []
  | p :: ps =>
    if p.kind = .positional && keys.contains p.name then
      ((p :: ps).filter (·.kind ≠ .rest)).map fun q =>
        if q.kind = .positional then { withFixed keys q with kind := .keywordOnly }
        else withFixed keys q
    else withFixed keys p :: keywordOnlyFrom keys ps

/-- The parameters left when some arguments and keywords are fixed, if these fit. A keyword of the
name of a parameter that can be given by position only does not, not even among further keywords. -/
def fix {α : Type} (ps : List Parameter) (args : List α) (keywords : List (String × α)) :
    Option (List Parameter) :=
  let given := (ps.filter isPositional).take args.length
  let left := ps.filter fun p => !given.contains p
  if admits ps args keywords &&
      left.all fun p => p.kind ≠ .positionalOnly || (keywords.lookup p.name).isNone then
    some (keywordOnlyFrom (keywords.map Prod.fst) left)
  else none

end Parameter

end TypeGuard
