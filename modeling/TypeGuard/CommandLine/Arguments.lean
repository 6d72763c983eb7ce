import TypeGuard.Text.Digit
import TypeGuard.Text.Quoted

/-! # Arguments

What the arguments of the command mean. Options may stand anywhere before a `--` and be cut to an
unambiguous beginning. The expression and the values are the first run of other arguments; a later
run is refused. The main definition is `Request.parse`.
-/

namespace TypeGuard.CommandLine

open Text

/-- The options. With `debug` the stages log what they do and the grammar traces its attempts, beside
the report. -/
inductive Switch where
  | help
  | tree
  | signature
  | debug
  | version
deriving DecidableEq, Repr

namespace Switch

def all : List Switch :=
  [help, tree, signature, debug, version]

def longName : Switch → String
  | help => "--help"
  | tree => "--parse"
  | signature => "--signature"
  | debug => "--debug"
  | version => "--version"

def title (s : Switch) : String :=
  if s = help then "-h/--help" else s.longName

def ofName (name : String) : Option Switch :=
  if name = "-h" then some help else all.find? (·.longName = name)

def beginningWith (lead : String) : List Switch :=
  all.filter fun s => lead.toList.isPrefixOf s.longName.toList

end Switch

inductive UsageError where
  | ambiguous (argument : String) (candidates : List Switch)
  /-- An option was given a value, and takes none. -/
  | ignoredValue (s : Switch) (value : String)
  /-- There is no expression. -/
  | missing
  | unrecognized (arguments : List String)
deriving DecidableEq, Repr

def UsageError.message : UsageError → String
  | ambiguous argument candidates =>
    "ambiguous option: " ++ argument ++ " could match " ++
      ", ".intercalate (candidates.map Switch.longName)
  | ignoredValue s value =>
    "argument " ++ s.title ++ ": ignored explicit argument " ++ displayString value
  | missing => "the following arguments are required: expression, VALUE"
  | unrecognized arguments => "unrecognized arguments: " ++ " ".intercalate arguments

/-! ## Single arguments -/

/-- An argument before any `--`. -/
inductive Word where
  | plain (text : String)
  | switch (s : Switch) (value : Option String)
  /-- An option of an unknown name. -/
  | unknown (text : String)
deriving DecidableEq, Repr

/-- Whether a text is a minus sign and digits, or these around or behind a point; a line feed may
end it. -/
def isNegativeNumber (cs : List Char) : Bool :=
  match cs with
  | '-' :: rest =>
    let rest := if rest.getLast? = some '\n' then rest.dropLast else rest
    match rest.dropWhile isDecimalDigit with
    | [] => !rest.isEmpty
    | '.' :: fraction => !fraction.isEmpty && fraction.all isDecimalDigit
    | _ => false
  | _ => false

def Word.ofNameless (argument : String) : Word :=
  if isNegativeNumber argument.toList || argument.toList.contains ' ' then plain argument
  else unknown argument

/-- The part of an argument before the first equals sign, and the part after it if there is one. -/
def splitValue (argument : String) : String × Option String :=
  let name := argument.toList.takeWhile (· ≠ '=')
  match argument.toList.dropWhile (· ≠ '=') with
  | [] => (argument, none)
  | _ :: value => (String.ofList name, some (String.ofList value))

/-- An argument that begins with a hyphen and another character, and is not the name of an option.
-/
def Word.ofHyphened (argument : String) : Except UsageError Word :=
  let (name, value) := splitValue argument
  match Switch.ofName name, argument.toList with
  | some s, _ => .ok (switch s value)
  | none, '-' :: '-' :: _ =>
    match Switch.beginningWith name with
    | [] => .ok (ofNameless argument)
    | [s] => .ok (switch s value)
    | candidates => .error (.ambiguous argument candidates)
  | none, '-' :: 'h' :: rest =>
    .ok (switch .help (if rest.head? = some '-' then some (String.ofList rest) else none))
  | none, _ => .ok (ofNameless argument)

def Word.ofArgument (argument : String) : Except UsageError Word :=
  match Switch.ofName argument, argument.toList with
  | some s, _ => .ok (switch s none)
  | none, '-' :: _ :: _ => ofHyphened argument
  | none, _ => .ok (plain argument)

/-! ## All arguments -/

inductive Mode where
  | tree
  | signature
  | check
deriving DecidableEq, Repr

structure Request where
  mode : Mode
  expression : String
  values : List String
deriving DecidableEq, Repr

inductive Stop where
  | help
  | version
  | usage (e : UsageError)
deriving DecidableEq, Repr

/-- What the words read so far amount to: the expression and the values, and what has no place. -/
structure Reading where
  operands : List String
  /-- Whether an option ended the run of operands. -/
  closed : Bool
  tree : Bool
  signature : Bool
  extras : List String

namespace Reading

def empty : Reading :=
  ⟨[], false, false, false, []⟩

def close (r : Reading) : Reading :=
  { r with closed := !r.operands.isEmpty }

def word (r : Reading) : Word → Except Stop Reading
  | .plain text =>
    if r.closed then .ok { r with extras := r.extras ++ [text] }
    else .ok { r with operands := r.operands ++ [text] }
  | .unknown text => .ok { r.close with extras := r.extras ++ [text] }
  | .switch s (some value) => .error (.usage (.ignoredValue s value))
  | .switch .help none => .error .help
  | .switch .version none => .error .version
  | .switch .tree none => .ok { r.close with tree := true }
  | .switch .signature none => .ok { r.close with signature := true }
  | .switch .debug none => .ok r.close

/-- Reads the arguments after the first `--`. Unless values stand before it, one more `--` is
dropped from the values behind it. -/
def literally (r : Reading) (rest : List String) : Reading :=
  if r.closed then { r with extras := r.extras ++ "--" :: rest }
  else
    match r.operands, rest with
    | [], [] => { r with extras := r.extras ++ ["--"] }
    | [], expression :: values => { r with operands := expression :: values.erase "--" }
    | [expression], values => { r with operands := expression :: values.erase "--" }
    | operands, values => { r with operands := operands ++ values }

def finish (r : Reading) : Except Stop Request :=
  match r.operands, r.extras with
  | [], _ => .error (.usage .missing)
  | expression :: values, [] =>
    .ok ⟨if r.tree then .tree else if r.signature then .signature else .check, expression, values⟩
  | _, extras => .error (.usage (.unrecognized extras))

end Reading

def Request.parse (arguments : List String) : Except Stop Request := do
  let words ← ((arguments.takeWhile (· ≠ "--")).mapM Word.ofArgument).mapError Stop.usage
  let r ← words.foldlM Reading.word Reading.empty
  match arguments.dropWhile (· ≠ "--") with
  | [] => r.finish
  | _ :: rest => (r.literally rest).finish

end TypeGuard.CommandLine
