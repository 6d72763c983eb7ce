/-! # Failed readings

A reading of a type expression fails at a place with an expectation. The place is kept as the number
of characters from it to the end of the text, so that a smaller number is further along. Of the
alternatives at one place the one that got furthest explains the failure.
-/

namespace TypeGuard.Grammar

inductive Expectation where
  | endOfText
  | closeParen
  | closeBracket
  | closeBrace
  | arrow
  | type
deriving DecidableEq, Repr

def Expectation.text : Expectation → String
  | endOfText => "end of text"
  | closeParen => "')'"
  | closeBracket => "']'"
  | closeBrace => "'\x7d'"
  | arrow => "'=>'"
  | type => "<type>"

structure Failure where
  remaining : Nat
  expected : Expectation
deriving DecidableEq, Repr

/-- The failure that got further, the first of two at one place. -/
def Failure.furthest (f g : Failure) : Failure :=
  if g.remaining < f.remaining then g else f

/-- A reader of a part of the text: its value and the text after it. -/
abbrev Reader (α : Type) := List Char → Except Failure (α × List Char)

/-- A reader of a part that may be missing, so that its failure explains nothing. -/
abbrev Attempt (α : Type) := List Char → Option (α × List Char)

def Reader.attempt {α : Type} (p : Reader α) : Attempt α := fun cs => (p cs).toOption

def repeatAttempt {α : Type} (p : Attempt α) : Nat → List Char → List α × List Char
  | 0, cs => ([], cs)
  | n + 1, cs =>
    match p cs with
    | none => ([], cs)
    | some (a, rest) =>
      let (as, rest) := repeatAttempt p n rest
      (a :: as, rest)

/-- Repeats an attempt as often as it succeeds; each success takes at least one character. -/
def many {α : Type} (p : Attempt α) (cs : List Char) : List α × List Char :=
  repeatAttempt p cs.length cs

end TypeGuard.Grammar
