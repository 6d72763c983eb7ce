import TypeGuard.Text.Blank
import TypeGuard.Text.Digit
import TypeGuard.Number.Decimal
import TypeGuard.TypeExpr.Basic
import TypeGuard.Grammar.Failure

/-! # Tokens

Gaps are skipped before every token. A word is a keyword only if no `$` follows it; inside the
brackets of an array suffix every kind of white space may stand. The escapes of a string literal
are those of the grammar: two-digit codes must end in `2` after `\x` and in `4` after `\u`.
-/

namespace TypeGuard.Grammar

open Text

def symbol (c : Char) : Attempt Unit := fun cs =>
  match skipGaps cs with
  | d :: rest => if d = c then some ((), rest) else none
  | [] => none

/-- A required token: failing it, the expectation stands at the first character after gaps. -/
def require {α : Type} (p : Attempt α) (expected : Expectation) : Reader α := fun cs =>
  match p cs with
  | some r => .ok r
  | none => .error ⟨(skipGaps cs).length, expected⟩

def optional {α : Type} (p : Attempt α) (cs : List Char) : List Char :=
  match p cs with
  | some (_, rest) => rest
  | none => cs

def arrow : Attempt Unit := fun cs =>
  match skipGaps cs with
  | '=' :: '>' :: rest => some ((), rest)
  | _ => none

def isWordStart (c : Char) : Bool :=
  c.isAlpha || c = '_'

def isWordPart (c : Char) : Bool :=
  c.isAlphanum || c = '_'

/-- The longest run of ASCII letters, digits and underscores, if it does not begin with a digit. -/
def identifier : Attempt String := fun cs =>
  match skipGaps cs with
  | c :: rest =>
    if isWordStart c then
      some (String.ofList (c :: rest.takeWhile isWordPart), rest.dropWhile isWordPart)
    else none
  | [] => none

/-- The name that stands for an embedded reference: `$Ref` and digits. -/
def placeholder : Attempt String := fun cs =>
  match skipGaps cs with
  | '$' :: 'R' :: 'e' :: 'f' :: rest =>
    let digits := rest.takeWhile Char.isDigit
    if digits.isEmpty then none
    else some (String.ofList ('$' :: 'R' :: 'e' :: 'f' :: digits), rest.dropWhile Char.isDigit)
  | _ => none

def arraySuffix : Attempt Unit := fun cs =>
  match skipGaps cs with
  | '[' :: rest =>
    match rest.dropWhile isBlank with
    | ']' :: rest => some ((), rest)
    | _ => none
  | _ => none

/-- A number literal: an integer unless it has a fraction or an exponent. -/
def numeral (cs : List Char) : Option (Literal × List Char) :=
  (Numeral.scan cs).map fun (n, rest) =>
    (if n.isInteger then .int n.toInt else .float n.toBinary64, rest)

/-! ## Quoted text -/

/-- The text up to a closing quote, with its escapes, and what follows the quote. -/
def quotedBody (quote : Char) : List Char → Option (List Char × List Char)
  | [] => none
  | '\\' :: [] => none
  | '\\' :: c :: cs =>
    if c = '\n' then none
    else (quotedBody quote cs).map fun (body, rest) => ('\\' :: c :: body, rest)
  | c :: cs =>
    if c = quote then some ([], cs)
    else if c = '\n' || c = '\r' then none
    else (quotedBody quote cs).map fun (body, rest) => (c :: body, rest)

def isOctalDigit (c : Char) : Bool :=
  '0' ≤ c && c ≤ '7'

/-- The control character that a letter after a backslash stands for. -/
def controlEscape (c : Char) : Option Char :=
  if c = 't' then some '\t'
  else if c = 'n' then some '\n'
  else if c = 'f' then some '\x0c'
  else if c = 'r' then some '\r'
  else none

/-- The character of a two-digit code whose last digit must follow the letter's rule. -/
def codeEscape (letter : Char) : List Char → Option (Char × List Char)
  | h :: d :: rest =>
    match hexValue h with
    | some n =>
      if letter = 'x' && d = '2' then some (Char.ofNat (16 * n + 2), rest)
      else if letter = 'u' && d = '4' then some (Char.ofNat (16 * n + 4), rest)
      else none
    | none => none
  | _ => none

/-- What a backslash and the character after it stand for, and the text that remains. -/
def escape (c : Char) (rest : List Char) : List Char × List Char :=
  match controlEscape c with
  | some d => ([d], rest)
  | none =>
    match isOctalDigit c, rest with
    | true, '3' :: rest => ([c, '3'], rest)
    | _, _ =>
      if c = '0' then (['\x00'], rest)
      else match codeEscape c rest with
        | some (d, rest) => ([d], rest)
        | none => ([c], rest)

def unescapeUpTo : Nat → List Char → List Char
  | 0, cs => cs
  | _, [] => []
  | n + 1, '\\' :: c :: cs =>
    let (text, rest) := escape c cs
    text ++ unescapeUpTo n rest
  | n + 1, c :: cs => c :: unescapeUpTo n cs

def unescape (body : List Char) : List Char :=
  unescapeUpTo body.length body

def quoted : Attempt String := fun cs =>
  match skipGaps cs with
  | c :: rest =>
    if c = '"' || c = '\'' then
      (quotedBody c rest).map fun (body, rest) => (String.ofList (unescape body), rest)
    else none
  | [] => none

end TypeGuard.Grammar
