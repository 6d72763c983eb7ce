import TypeGuard.Callable.World

/-! # Showing values

A value is shown to a reader as a text, and recorded for later as a snapshot. Lists are followed
into the world; no more lists than it holds can lie inside each other unless one lies inside itself.
-/

namespace TypeGuard

def commaSeparated (ts : List (List Char)) : List Char :=
  List.intercalate [',', ' '] ts

def bracketed (ts : List (List Char)) : List Char :=
  '[' :: commaSeparated ts ++ [']']

/-- A tuple as shown; a single item is followed by a comma. -/
def parenthesized (ts : List (List Char)) : List Char :=
  match ts with
  | [t] => '(' :: t ++ [',', ')']
  | ts => '(' :: commaSeparated ts ++ [')']

/-- A real or imaginary part, without a fraction that is zero. -/
def partChars (x : Binary64) : List Char :=
  let cs := x.chars
  if cs.drop (cs.length - 2) = ['.', '0'] then cs.take (cs.length - 2) else cs

/-- A complex number as shown: in parentheses unless its real part is a positive zero. -/
def complexChars (re im : Binary64) : List Char :=
  let imaginary := partChars im ++ ['j']
  if re = .zero false then imaginary
  else
    let sign := if imaginary.head? = some '-' then [] else ['+']
    '(' :: partChars re ++ sign ++ imaginary ++ [')']

/-- One byte inside a quotation that is closed by `quote`. -/
def byteChars (quote : Char) (b : Nat) : List Char :=
  let c := Char.ofNat b
  if c = quote || c = '\\' then ['\\', c]
  else if c = '\n' then ['\\', 'n']
  else if c = '\r' then ['\\', 'r']
  else if c = '\t' then ['\\', 't']
  else if 32 ≤ b && b < 127 then [c]
  else '\\' :: 'x' :: Text.hexDigits 2 b

def bytesChars (bs : List Nat) : List Char :=
  let quote := Text.displayQuote (bs.map Char.ofNat)
  'b' :: quote :: bs.flatMap (byteChars quote) ++ [quote]

namespace Value

section Display

variable (list agent : Nat → List Char)

/-- A value as shown to a reader, given how lists and callable objects are shown. -/
def displayWith : Value → List Char
  | none => "None".toList
  | undefined => "UNDEFINED".toList
  | bool b => (if b then "True" else "False").toList
  | int i => intChars i
  | float x => x.chars
  | fraction q => "Fraction(".toList ++ intChars q.num ++ [',', ' '] ++ digitChars q.den ++ [')']
  | decimal text _ => "Decimal('".toList ++ text.toList ++ ['\'', ')']
  | complex re im => complexChars re im
  | str s => Text.display s.toList
  | rawStr codes => Text.displayCodes codes
  | bytes content => bytesChars content
  | set [] => "set()".toList
  | set (m :: ms) => '\x7b' :: commaSeparated (displayAll (m :: ms)) ++ ['\x7d']
  | tuple vs => parenthesized (displayAll vs)
  | .list id => list id
  | dict false entries => '\x7b' :: commaSeparated (displayEntries entries) ++ ['\x7d']
  | dict true [] => "OrderedDict()".toList
  | dict true (e :: es) => "OrderedDict(".toList ++ bracketed (displayPairs (e :: es)) ++ [')']
  | type c _ => "<class '".toList ++ c.qualifiedName.toList ++ ['\'', '>']
  | inst _ c _ _ => '<' :: c.name.toList ++ ['>']
  | .agent _ id => agent id
  | routine _ name => "<method ".toList ++ name.toList ++ ['>']
  | node t => '<' :: t.form.name.toList ++ ['>']
termination_by structural v => v
where
  displayAll : List Value → List (List Char)
    | [] => []
    | v :: vs => displayWith v :: displayAll vs
  termination_by structural vs => vs
  displayEntries : List (Value × Value) → List (List Char)
    | [] => []
    | (k, v) :: es => (displayWith k ++ [':', ' '] ++ displayWith v) :: displayEntries es
  termination_by structural es => es
  displayPairs : List (Value × Value) → List (List Char)
    | [] => []
    | (k, v) :: es => parenthesized [displayWith k, displayWith v] :: displayPairs es
  termination_by structural es => es

end Display

section Snapshot

variable (list agent : Nat → Snapshot)

/-- A value as it looks now, given how lists and callable objects look. Instances and values of
rarer classes are known by their class only. -/
def snapshotWith : Value → Snapshot
  | none => .none
  | undefined => .undefined
  | bool b => .bool b
  | int i => .int i
  | float x => .float x
  | fraction q => .fraction q
  | str s => .str s
  | rawStr codes => .rawStr codes
  | tuple vs => .tuple (snapshotAll vs)
  | .list id => list id
  | dict false entries => .dict (snapshotEntries entries)
  | type c _ => .type c.id
  | .agent _ id => agent id
  | inst _ c _ _ => .other c.name
  | dict true _ => .other BuiltinClass.orderedDict.name
  | decimal .. => .other BuiltinClass.decimal.name
  | complex .. => .other BuiltinClass.complex.name
  | bytes _ => .other BuiltinClass.bytes.name
  | set _ => .other BuiltinClass.set.name
  | routine owner name => .other (Value.routine owner name).className
  | node t => .other t.form.name
termination_by structural v => v
where
  snapshotAll : List Value → List Snapshot
    | [] => []
    | v :: vs => snapshotWith v :: snapshotAll vs
  termination_by structural vs => vs
  snapshotEntries : List (Value × Value) → List (Snapshot × Snapshot)
    | [] => []
    | (k, v) :: es => (snapshotWith k, snapshotWith v) :: snapshotEntries es
  termination_by structural es => es

end Snapshot

end Value

namespace Guard

def text (g : Guard) : String :=
  "<ValidatedFunction " ++ g.shownName ++ ">"

end Guard

def Signature.text {ρ : Type} (s : Signature ρ) : String :=
  "<Signature " ++ s.description ++ ">"

namespace World

variable (w : World)

def agentChars (id : Nat) : List Char :=
  match w.agent? id with
  | some (.function f) => "<function ".toList ++ f.name.toList ++ ['>']
  | some (.application ..) => "<partial>".toList
  | some (.predicate p) => "<Predicate ".toList ++ p.description.shown.toList ++ ['>']
  | some (.signature s _) => s.text.toList
  | some (.guard g) => g.text.toList
  | none => []

def listChars : Nat → Nat → List Char
  | 0, _ => "[...]".toList
  | depth + 1, id => bracketed ((w.items id).map (Value.displayWith (listChars depth) w.agentChars))

def display (v : Value) : String :=
  String.ofList (v.displayWith (w.listChars w.lists.length) w.agentChars)

/-- A value as written into a text: exact numbers without the name of their class. -/
def format (v : Value) : String :=
  match v with
  | .fraction q =>
    String.ofList (intChars q.num ++ if q.den = 1 then [] else '/' :: digitChars q.den)
  | .decimal text _ => text
  | v => v.text?.getD (w.display v)

/-- The name that a callable is shown by: the one it declares, or that of its class. -/
def shownName (v : Value) : String :=
  match w.declaredName v with
  | some name => w.format name
  | none => v.className

def listSnapshot (agent : Nat → Snapshot) : Nat → Nat → Snapshot
  | 0, _ => .list []
  | depth + 1, id =>
    .list ((w.items id).map (Value.snapshotWith (listSnapshot agent depth) agent))

def agentOutline (id : Nat) : Snapshot :=
  match w.agent? id with
  | some (.function f) => .function f.name
  | some (.application ..) => .other AgentKind.application.className
  | some (.predicate _) => .other AgentKind.predicate.className
  | some (.signature s _) => .signature s.description
  | some (.guard g) => .guard g.text
  | none => .none

def describedAs (d : Description) : Snapshot :=
  match d with
  | .text s => .str s
  | .value v _ =>
    v.snapshotWith (w.listSnapshot w.agentOutline w.lists.length) w.agentOutline

def agentSnapshot (id : Nat) : Snapshot :=
  match w.agent? id with
  | some (.predicate p) => .predicate (w.describedAs p.description)
  | _ => w.agentOutline id

def snapshot (v : Value) : Snapshot :=
  v.snapshotWith (w.listSnapshot w.agentSnapshot w.lists.length) w.agentSnapshot

/-- Whether two values are one object. Values without a number of their own are one if they look
alike. -/
def identical (a b : Value) : Bool :=
  match a, b with
  | .list i, .list j => i = j
  | .inst i _ _ _, .inst j _ _ _ => i = j
  | .agent _ i, .agent _ j => i = j
  | .type c _, .type d _ => c.id = d.id
  | .inst .., _ => false
  | _, .inst .. => false
  | a, b => a.className = b.className && w.display a = w.display b

end World

end TypeGuard
