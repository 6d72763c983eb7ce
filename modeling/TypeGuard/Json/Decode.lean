import TypeGuard.Json.Basic
import TypeGuard.Text.Layout

/-! # Decoding documents

Reads a text as one JSON document. Beyond the standard the numbers `NaN`, `Infinity` and `-Infinity`
are known. A text that is no document is refused with the place where it stops being one. The main
definition is `Json.decode`.
-/

namespace TypeGuard.Json

open Text

inductive Problem where
  | byteOrderMark
  | value
  | key
  | colon
  | comma
  | unclosedString
  | controlCharacter
  | escape
  | unitEscape
  | extraData
deriving DecidableEq, Repr

def Problem.message : Problem → String
  | byteOrderMark => "Unexpected UTF-8 BOM (decode using utf-8-sig)"
  | value => "Expecting value"
  | key => "Expecting property name enclosed in double quotes"
  | colon => "Expecting ':' delimiter"
  | comma => "Expecting ',' delimiter"
  | unclosedString => "Unterminated string starting at"
  | controlCharacter => "Invalid control character at"
  | escape => "Invalid \\escape"
  | unitEscape => "Invalid \\uXXXX escape"
  | extraData => "Extra data"

/-- A problem before the last `remaining` characters of a text. -/
structure Failure where
  remaining : Nat
  problem : Problem
deriving DecidableEq, Repr

abbrev Reader (α : Type) := List Char → Except Failure (α × List Char)

def failAt {α : Type} (cs : List Char) (problem : Problem) : Except Failure α :=
  .error ⟨cs.length, problem⟩

/-! ## Strings -/

def letterEscape (c : Char) : Option Char :=
  if c = '"' || c = '\\' || c = '/' then some c
  else if c = 'b' then some '\x08'
  else if c = 'f' then some '\x0c'
  else if c = 'n' then some '\n'
  else if c = 'r' then some '\r'
  else if c = 't' then some '\t'
  else none

def unitOf (a b c d : Char) : Option Nat := do
  return (← hexValue a) * 0x1000 + (← hexValue b) * 0x100 + (← hexValue c) * 0x10 + (← hexValue d)

/-- The rest of a string after its opening quote, as code units; `start` begins at that quote. -/
def stringBody (start : List Char) : Reader (List Nat)
  | [] => failAt start .unclosedString
  | '\\' :: c :: cs =>
    if c = 'u' then
      match cs with
      | h :: i :: j :: k :: rest =>
        match unitOf h i j k, rest.isEmpty with
        | some n, false => do
          let (units, rest) ← stringBody start rest
          return (n :: units, rest)
        | _, _ => failAt (c :: cs) .unitEscape
      | _ => failAt (c :: cs) .unitEscape
    else
      match letterEscape c with
      | some d => do
        let (units, rest) ← stringBody start cs
        return (d.toNat :: units, rest)
      | none => failAt ('\\' :: c :: cs) .escape
  | c :: cs =>
    if c = '"' then .ok ([], cs)
    else if c = '\\' then failAt start .unclosedString
    else if c.toNat < 0x20 then failAt (c :: cs) .controlCharacter
    else do
      let (units, rest) ← stringBody start cs
      return (c.toNat :: units, rest)

def isHighSurrogate (n : Nat) : Bool :=
  0xd800 ≤ n && n < 0xdc00

def isLowSurrogate (n : Nat) : Bool :=
  0xdc00 ≤ n && n < 0xe000

/-- The code points of code units, each pair of surrogates being one character. -/
def codesOf : List Nat → List Nat
  | [] => []
  | [n] => [n]
  | m :: n :: units =>
    if isHighSurrogate m && isLowSurrogate n then
      (0x10000 + (m - 0xd800) * 0x400 + (n - 0xdc00)) :: codesOf units
    else m :: codesOf (n :: units)

def stringRest (start : List Char) : Reader JsonText := fun cs => do
  let (units, rest) ← stringBody start cs
  return (.ofCodes (codesOf units), rest)

/-! ## Other parts -/

def words : List (String × Json) :=
  [("null", null), ("true", bool true), ("false", bool false), ("NaN", float .nan),
    ("Infinity", float (.infinity false)), ("-Infinity", float (.infinity true))]

def word (cs : List Char) : Option (Json × List Char) :=
  words.findSome? fun (w, j) => (w.toList.isPrefixOf? cs).map (j, ·)

def number (cs : List Char) : Option (Json × List Char) :=
  (Numeral.scan cs).map fun (n, rest) =>
    (if n.isInteger then .int n.toInt else .float n.toBinary64, rest)

/-- At most `n` items with commas between them, and the character that closes them. -/
def separated {α : Type} (close : Char) (item : Reader α) : Nat → Reader (List α)
  | 0, cs => failAt cs .comma
  | n + 1, cs => do
    let (a, rest) ← item cs
    let rest := skipGaps rest
    match rest with
    | [] => failAt rest .comma
    | c :: after =>
      if c = close then return ([a], after)
      else if c = ',' then
        let (as, rest) ← separated close item n after
        return (a :: as, rest)
      else failAt rest .comma

def enclosed {α : Type} (close : Char) (item : Reader α) : Reader (List α) := fun cs =>
  match skipGaps cs with
  | [] => separated close item 1 []
  | c :: rest => if c = close then .ok ([], rest) else separated close item cs.length (c :: rest)

section Rules

variable (value : Reader Json)

def member : Reader (JsonText × Json) := fun cs => do
  let start := skipGaps cs
  match start with
  | '"' :: rest =>
    let (key, rest) ← stringRest start rest
    match skipGaps rest with
    | ':' :: rest =>
      let (j, rest) ← value rest
      return ((key, j), rest)
    | rest => failAt rest .colon
  | _ => failAt start .key

/-- One level of a document over a reader for the values inside. -/
def level : Reader Json := fun cs => do
  let start := skipGaps cs
  match start with
  | '"' :: rest =>
    let (s, rest) ← stringRest start rest
    return (str s, rest)
  | '[' :: rest =>
    let (items, rest) ← enclosed ']' value rest
    return (array items, rest)
  | '\x7b' :: rest =>
    let (members, rest) ← enclosed '\x7d' (member value) rest
    return (object members, rest)
  | _ =>
    match (word start).or (number start) with
    | some r => return r
    | none => failAt start .value

end Rules

def readUpTo : Nat → Reader Json
  | 0 => fun cs => failAt (skipGaps cs) .value
  | depth + 1 => level (readUpTo depth)

/-- Reads a whole text as one document; every level of nesting takes a character. -/
def readText (cs : List Char) : Except Failure Json := do
  if cs.head? = some '\ufeff' then failAt cs .byteOrderMark
  else
    let (j, rest) ← readUpTo (cs.length + 1) cs
    match skipGaps rest with
    | [] => return j
    | rest => failAt rest .extraData

/-! ## Errors -/

structure DecodeError where
  problem : Problem
  offset : Nat
  line : Nat
  column : Nat
deriving DecidableEq, Repr

def DecodeError.message (e : DecodeError) : String :=
  s!"{e.problem.message}: line {e.line} column {e.column} (char {e.offset})"

def DecodeError.ofFailure (cs : List Char) (f : Failure) : DecodeError :=
  let offset := cs.length - f.remaining
  ⟨f.problem, offset, lineAt cs offset, columnAt cs offset⟩

def decode (source : String) : Except DecodeError Json :=
  (readText source.toList).mapError (.ofFailure source.toList)

end TypeGuard.Json
