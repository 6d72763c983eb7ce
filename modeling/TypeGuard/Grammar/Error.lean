import TypeGuard.Text.Blank
import TypeGuard.Text.Layout
import TypeGuard.Text.Quoted
import TypeGuard.Text.Search
import TypeGuard.Text.Word
import TypeGuard.Number.Decimal

/-! # Reports of grammar errors

A report tells where a text stopped being a type expression, what was expected and found there,
shows the lines around the place with a caret, and adds hints for common mistakes. Lines and columns
are integers: a request may lie outside the text, and a line before the first counts from the end.
-/

namespace TypeGuard

/-- A refused type expression. The line is zero when the text was empty. -/
structure GrammarError where
  message : String
  location : Nat := 0
  line : Int := 0
  column : Int := 0
  expected : List String := []
  got : Option String := none
  context : Option String := none
  suggestions : List String := []
deriving DecidableEq, Repr

/-- A place in a text and what is wrong with it there. -/
structure Fault where
  text : List Char
  offset : Nat
  message : List Char

namespace Fault

def line (f : Fault) : Nat :=
  Text.lineAt f.text f.offset

def column (f : Fault) : Nat :=
  Text.columnAt f.text f.offset

/-- The word at the place, cut at sixteen characters, or else the one character there. -/
def found (f : Fault) : List Char :=
  match f.text.drop f.offset with
  | [] => "end of text".toList
  | c :: cs =>
    let word := ((c :: cs).takeWhile Char.isAlphanum).take 16
    Text.display (if word.isEmpty then [c] else word)

def describe (f : Fault) : List Char :=
  f.message ++
    (if f.text.isEmpty then [] else ", found ".toList ++ f.found) ++
    "  (at char ".toList ++ digitChars f.offset ++ "), (line:".toList ++ digitChars f.line ++
    ", col:".toList ++ digitChars f.column ++ ")".toList

end Fault

namespace GrammarError

/-! ## The place -/

def linePrefix (n : Nat) : List Char :=
  let ds := digitChars n
  List.replicate (4 - ds.length) ' ' ++ ds ++ [':', ' ']

def caret (column : Int) : List Char :=
  List.replicate 6 ' ' ++ List.replicate (column - 1).toNat ' ' ++ ['^']

/-- One numbered line of the context, with the caret below it if it is the line at fault. -/
def contextLine (line column : Int) (numbered : List Char × Nat) : List (List Char) :=
  let shown := linePrefix (numbered.2 + 1) ++ numbered.1
  if (numbered.2 : Int) = line - 1 then [shown, caret column] else [shown]

/-- The lines around a place, `size` of them on either side, with a caret at the column. -/
def contextLines (source : List Char) (line column size : Int) : List (List Char) :=
  let first := (line - size - 1).toNat
  let last := (line + size).toNat
  (((Text.lines source).zipIdx.take last).drop first).flatMap (contextLine line column)

def joinLines (ls : List (List Char)) : List Char :=
  List.intercalate ['\n'] ls

def contextAt (source : String) (line column size : Int) : String :=
  String.ofList (joinLines (contextLines source.toList line column size))

/-- The line of a number; numbers from zero downwards count from the end. -/
def lineNumbered (ls : List (List Char)) (line : Int) : Option (List Char) :=
  let i := line - 1
  if 0 ≤ i then ls[i.toNat]?
  else if -i ≤ ls.length then ls[(ls.length + i).toNat]?
  else none

/-- The part of a line from one index up to another; a negative end counts from the end. -/
def slice (cs : List Char) (first : Nat) (last : Int) : List Char :=
  let last := if last < 0 then (cs.length + last).toNat else last.toNat
  (cs.take last).drop first

/-- The fragment at a place: eleven characters from the column on, without margins, in quotes. -/
def fragment (line : List Char) (column : Int) : List Char :=
  Text.trim (slice line (column - 1).toNat (min line.length (column + 10)))

def gotAt (source : String) (line column : Int) : String :=
  let ls := Text.lines source.toList
  if line ≤ ls.length then
    match lineNumbered ls line with
    | none => "unknown"
    | some l =>
      let text := if column ≤ l.length then fragment l column else []
      if text.isEmpty then "end of expression" else "'" ++ String.ofList text ++ "'"
  else "unknown"

/-! ## The expectation -/

/-- Whether an expectation ends here: at what was found, at a remark in parentheses, or with the
text. -/
def endsExpectation (cs : List Char) : Bool :=
  cs.isEmpty || cs == ['\n'] ||
    (match cs with
      | ',' :: rest =>
        rest.head?.any Text.isBlank && "found".toList.isPrefixOf (rest.dropWhile Text.isBlank)
      | _ => false) ||
    (cs.head?.any Text.isBlank && (cs.dropWhile Text.isBlank).head? = some '(')

/-- The shortest text of at least one character up to the end of an expectation, on one line. -/
def expectationText : List Char → Option (List Char)
  | [] => none
  | c :: cs =>
    if c = '\n' then none
    else if endsExpectation cs then some [c]
    else (expectationText cs).map (c :: ·)

/-- The expectation after `n` blanks or fewer, the most first. -/
def expectationAfter (cs : List Char) : Nat → Option (List Char)
  | 0 => none
  | n + 1 =>
    match expectationText (cs.drop (n + 1)) with
    | some text => some text
    | none => expectationAfter cs n

def expectation : List Char → Option (List Char)
  | [] => none
  | c :: cs =>
    match "Expected".toList.isPrefixOf? (c :: cs) with
    | none => expectation cs
    | some rest =>
      match expectationAfter rest (rest.takeWhile Text.isBlank).length with
      | some text => some text
      | none => expectation cs

def expectedBy (f : Fault) : List String :=
  match expectation f.describe with
  | some text => [String.ofList text]
  | none => ["a type expression"]

/-! ## Hints -/

def looksLikeMethod : List Char → Bool
  | [] => false
  | c :: cs =>
    (Text.isWord c && (cs.dropWhile Text.isBlank).head? = some '(') || looksLikeMethod cs

/-- Whether `Array`, not as the end of a longer word, is followed by an opening angle bracket. -/
def hasArrayArgument : (afterWord : Bool) → List Char → Bool
  | _, [] => false
  | afterWord, c :: cs =>
    (!afterWord &&
      (match "Array".toList.isPrefixOf? (c :: cs) with
        | some rest => (rest.dropWhile Text.isBlank).head? = some '<'
        | none => false)) ||
      hasArrayArgument (Text.isWord c) cs

def suggestionsFor (source got : String) : List String :=
  let cs := source.toList
  let hint (p : Bool) (text : String) : List String := if p then [text] else []
  hint (Text.occursIn ['-', '>'] cs) "Function types use '=>' between parameters and return type" ++
  hint (Text.occursIn ['.', '.', '.'] cs) "Variadic parameters are unsupported" ++
  hint (looksLikeMethod cs)
    "Object methods are unsupported, use a Function property instead" ++
  hint (cs.contains '<' && !hasArrayArgument false cs)
    "Only Array<T> accepts a type argument" ++
  hint (got.toList.contains '\'' || got.toList.contains '"')
    "String literals must be closed with the same quote they open with"

/-! ## The report -/

/-- The report of a fault in a source; the fault's own text may be laid out differently. -/
def ofFault (f : Fault) (source : String) : GrammarError :=
  let got := gotAt source f.line f.column
  { message := String.ofList f.message
    location := f.offset
    line := f.line
    column := f.column
    expected := expectedBy f
    got := some got
    context := some (contextAt source f.line f.column 1)
    suggestions := suggestionsFor source got }

def empty : GrammarError :=
  { message := "Expected valid type expression, got empty text" }

def part (text : Option String) (render : String → String) : String :=
  match text with
  | some s => if s.isEmpty then "" else render s
  | none => ""

def trimLineEnds (s : String) : String :=
  String.ofList (s.toList.reverse.dropWhile (· = '\n')).reverse

def format (e : GrammarError) : String :=
  trimLineEnds <|
    s!"Invalid type expression at line {e.line}, column {e.column}:\n  {e.message}\n" ++
    (if e.expected.isEmpty then "" else "  Expected: " ++ ", ".intercalate e.expected ++ "\n") ++
    part e.got (fun s => "  Got: " ++ s ++ "\n") ++
    part e.context (fun s => "  Context:\n" ++ s ++ "\n") ++
    (if e.suggestions.isEmpty then ""
      else "  Suggestions:\n" ++ String.join (e.suggestions.map fun s => "    - " ++ s ++ "\n"))

/-- The text of an error: the report, or the message alone when there is no place to report. -/
def text (e : GrammarError) : String :=
  if e.line = 0 then e.message else e.format

end GrammarError

end TypeGuard
