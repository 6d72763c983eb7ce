import TypeGuard.CommandLine.Arguments
import TypeGuard.Json.Decode
import TypeGuard.Template
import TypeGuard.TypeExpr.Listing

/-! # Reports

What the command writes and the status it ends with. A request shows a tree, shows the parts of a
signature, or checks values against a type. No value is checked before all of them are decoded, and
none is decoded before the type is compiled. A report leaves out what is logged when debugging. The
main definition is `run`.
-/

namespace TypeGuard.CommandLine

structure Report where
  status : Nat
  output : String
  diagnostics : String
deriving DecidableEq, Repr

def accepted : Nat := 0

def rejected : Nat := 1

/-- The status when there was nothing to check. -/
def failed : Nat := 2

def unlines (ls : List String) : String :=
  String.join (ls.map (· ++ "\n"))

def Report.success (ls : List String) : Report :=
  ⟨accepted, unlines ls, ""⟩

def Report.refusal (expression : String) : Error → Report
  | .grammar e => ⟨failed, unlines ["Grammar error in '" ++ expression ++ "':", e.text], ""⟩
  | e => ⟨failed, unlines ["Definition error in '" ++ expression ++ "': " ++ e.message], ""⟩

/-! ## Signatures -/

def parameterLines (ps : List (Predicate Value)) : List String :=
  (ps.zipIdx 1).map fun (p, i) => s!"  {i}. {p.description.shown}"

def signatureLines (s : Signature Value) : List String :=
  ["Signature: " ++ s.description, s!"Arity: {s.arity}"] ++ parameterLines s.params ++
    ["Returns: " ++ s.result.description.shown]

/-! ## Values -/

/-- Decodes texts up to the first that is no document. -/
def decodeAll : List String → Except (String × Json.DecodeError) (List Json)
  | [] => .ok []
  | raw :: raws =>
    match Json.decode raw with
    | .error e => .error (raw, e)
    | .ok j => (decodeAll raws).map (j :: ·)

def Report.undecodable (raw : String) (e : Json.DecodeError) : Report :=
  ⟨failed, "", unlines
    ["Error: Cannot decode value " ++ Text.displayString raw ++ ": " ++ e.message,
      "  Hint: Values are JSON, so strings need double quotes, e.g. '\"text\"'"]⟩

def holds (w : World) (p : Predicate Value) (v : Value) : Bool :=
  match ((p.check.test Value.call v).run.run w).1 with
  | .ok b => b
  | .error _ => false

def verdicts (p : Predicate Value) (js : List Json) : List Bool :=
  let (vs, w) := (Json.toValue.ofItems js).run World.empty
  vs.map (holds w p)

def verdictLine (p : Predicate Value) (raw : String) (ok : Bool) : String :=
  if ok then "ok       " ++ raw
  else "rejected " ++ raw ++ "  (expected " ++ p.description.shown ++ ")"

def Report.judgement (p : Predicate Value) (raws : List String) (oks : List Bool) : Report :=
  ⟨if oks.all id then accepted else rejected, unlines (raws.zipWith (verdictLine p) oks), ""⟩

def checkReport (p : Predicate Value) (raws : List String) : Report :=
  match decodeAll raws with
  | .error (raw, e) => .undecodable raw e
  | .ok js =>
    if raws.isEmpty then .success ["Compiled: " ++ p.description.shown]
    else .judgement p raws (verdicts p js)

/-! ## Requests -/

def Request.report (r : Request) : Report :=
  let template := [Value.str r.expression]
  match r.mode with
  | .tree =>
    match TypeExpr.parse r.expression with
    | .ok t => ⟨accepted, t.listingText 0, ""⟩
    | .error e => .refusal r.expression (.grammar e)
  | .signature =>
    match compileSignature World.empty template [] with
    | .ok s => .success (signatureLines s)
    | .error e => .refusal r.expression e
  | .check =>
    match compileType World.empty template [] with
    | .ok p => checkReport p r.values
    | .error e => .refusal r.expression e

def version : String := "0.3.0"

def usageLines : List String :=
  ["usage: typesig [-h] [--parse] [--signature] [--debug] [--version]",
    "               expression [VALUE ...]"]

def exampleLines : List String :=
  ["Examples:",
    "  typesig 'number[]' '[1, 2, 3]'             # Check a JSON value",
    "  typesig '\x7b message: ?string \x7d' '\x7b\x7d' 'null' # Check several values",
    "  typesig --parse '?string | number'         # Show the syntax tree",
    "  typesig --signature '(string, number) => string'",
    "        "]

def helpLines : List String :=
  usageLines ++
    ["",
      "Check values against type expressions",
      "",
      "positional arguments:",
      "  expression   Type expression to compile",
      "  VALUE        JSON encoded values to check against the expression",
      "",
      "options:",
      "  -h, --help   show this help message and exit",
      "  --parse      Parse the expression and show its syntax tree",
      "  --signature  Treat the expression as a function signature and show its parts",
      "  --debug      Enable debug logging for all stages",
      "  --version    show program's version number and exit",
      ""] ++
    exampleLines

def Stop.report : Stop → Report
  | help => .success helpLines
  | version => .success ["typesig v" ++ CommandLine.version]
  | usage e => ⟨failed, "", unlines (usageLines ++ ["typesig: error: " ++ e.message])⟩

/-- The command: its report on its arguments. -/
def run (arguments : List String) : Report :=
  match Request.parse arguments with
  | .ok r => r.report
  | .error s => s.report

end TypeGuard.CommandLine
