import TypeGuard.Number.Real
import TypeGuard.Text.Quoted
import TypeGuard.TypeExpr.Tree
import TypeGuard.Value.Routine

/-! # Values

The values that types speak about. Everything that cannot change is part of the value; the items of
a list and the definition of a callable object are kept in a world, and the value holds their
number. An instance of a class derived from a built-in one has a content of that built-in class, and
no dictionary of its attributes. A text is a sequence of code points; most are characters.
-/

namespace TypeGuard

/-- The kinds of callable objects that are neither classes nor instances of defined classes. -/
inductive AgentKind where
  | function
  | method
  | application
  | predicate
  | signature
  | guard
deriving DecidableEq, Repr

def AgentKind.className : AgentKind → String
  | function => "function"
  | method => "method"
  | application => "partial"
  | predicate => "Predicate"
  | signature => "Signature"
  | guard => "ValidatedFunction"

inductive Value where
  | none
  | undefined
  | bool (b : Bool)
  | int (i : Int)
  | float (x : Binary64)
  | fraction (q : Rat)
  | decimal (text : String) (value : Magnitude)
  | complex (re im : Binary64)
  | str (s : String)
  /-- A text in which some code point is no character. -/
  | rawStr (codes : List Nat)
  | bytes (content : List Nat)
  | set (members : List Value)
  | tuple (items : List Value)
  | list (id : Nat)
  | dict (ordered : Bool) (entries : List (Value × Value))
  | type (info : ClassInfo) (attributes : List (String × Value))
  | inst (id : Nat) (info : ClassInfo) (content : Option Value) (attributes : List (String × Value))
  | agent (kind : AgentKind) (id : Nat)
  /-- A method of a value of a built-in class. -/
  | routine (owner : BuiltinClass) (name : String)
  /-- The tree of a type. -/
  | node (t : TypeExpr)
deriving Inhabited

namespace Value

/-- The content of an instance, and any other value itself. -/
def core : Value → Value
  | inst _ _ (some content) _ => content
  | v => v

def ofCodes (codes : List Nat) : Value :=
  if codes.any Text.isSurrogate then rawStr codes else str (String.ofList (codes.map Char.ofNat))

/-! ## Categories -/

/-- A text, with what is no character replaced. -/
def text? (v : Value) : Option String :=
  match v.core with
  | str s => some s
  | rawStr codes => some (String.ofList (Text.replaceSurrogates codes))
  | _ => Option.none

/-- A text of characters only. -/
def string? (v : Value) : Option String :=
  match v.core with
  | str s => some s
  | _ => Option.none

def isString (v : Value) : Bool :=
  v.text?.isSome

/-- What a real number denotes; truth values are no numbers here. -/
def magnitude? (v : Value) : Option Magnitude :=
  match v.core with
  | int i => some (.ofInt i)
  | float x => some (.ofBinary64 x)
  | fraction q => some (.rational q)
  | _ => Option.none

def isNumber (v : Value) : Bool :=
  v.magnitude?.isSome

def isBoolean (v : Value) : Bool :=
  match v with
  | bool _ => true
  | _ => false

def isNull (v : Value) : Bool :=
  match v with
  | none => true
  | _ => false

def isVoid (v : Value) : Bool :=
  match v with
  | undefined => true
  | _ => false

def isNullish (v : Value) : Bool :=
  v.isNull || v.isVoid

def isArray (v : Value) : Bool :=
  match v.core with
  | list _ => true
  | tuple _ => true
  | _ => false

def isCallable (v : Value) : Bool :=
  match v with
  | agent .. => true
  | type .. => true
  | inst _ info _ _ => info.call.isSome
  | routine .. => true
  | _ => false

/-- Numbers of any kind, real or not, and truth values among them. -/
def isNumeric (v : Value) : Bool :=
  match v.core with
  | bool _ => true
  | int _ => true
  | float _ => true
  | fraction _ => true
  | decimal .. => true
  | complex .. => true
  | _ => false

/-- Structured values: all but absent ones, texts, numerics and callables. -/
def isObject (v : Value) : Bool :=
  !v.isNullish && !v.isString && !v.isNumeric && !v.isCallable

def className (v : Value) : String :=
  match v with
  | none => "NoneType"
  | undefined => "_Undefined"
  | bool _ => "bool"
  | int _ => "int"
  | float _ => "float"
  | fraction _ => "Fraction"
  | decimal .. => "Decimal"
  | complex .. => "complex"
  | str _ => "str"
  | rawStr _ => "str"
  | bytes _ => "bytes"
  | set _ => "set"
  | tuple _ => "tuple"
  | list _ => "list"
  | dict ordered _ => if ordered then "OrderedDict" else "dict"
  | type .. => "type"
  | inst _ info _ _ => info.name
  | agent kind _ => kind.className
  | routine owner name => ((owner.routine? name).map Routines.className).getD ""
  | node t => t.form.name

def lineage (v : Value) : List ClassId :=
  let builtin (c : BuiltinClass) := c.lineage.map ClassId.builtin
  match v with
  | none => builtin .noneType
  | bool _ => builtin .bool
  | int _ => builtin .int
  | float _ => builtin .float
  | fraction _ => builtin .fraction
  | decimal .. => builtin .decimal
  | complex .. => builtin .complex
  | str _ => builtin .str
  | rawStr _ => builtin .str
  | bytes _ => builtin .bytes
  | set _ => builtin .set
  | tuple _ => builtin .tuple
  | list _ => builtin .list
  | dict ordered _ => builtin (if ordered then .orderedDict else .dict)
  | inst _ info _ _ => info.lineage
  | undefined => builtin .object
  | type .. => builtin .object
  | agent .. => builtin .object
  | routine .. => builtin .object
  | node _ => builtin .object

def isInstance (v : Value) (c : ClassInfo) : Bool :=
  v.lineage.contains c.id

/-! ## Properties -/

def memberOf (c : BuiltinClass) (key : String) : Option Value :=
  if key = "__doc__" then c.doc?.map str
  else if key = "__hash__" && (c = .list || c = .set) then some none
  else (c.routine? key).map fun _ => routine c key

def builtinAttribute? (c : BuiltinClass) (key : String) : Option Value :=
  if key = "__class__" then some (type (.ofBuiltin c) [])
  else c.lineage.findSome? (memberOf · key)

/-- An attribute that instances of a defined class have without being given it. -/
def instanceAttribute? (c : ClassInfo) (attributes : List (String × Value)) (key : String) :
    Option Value :=
  if key = "__class__" then some (type c attributes)
  else if key = "__doc__" then some none
  else if key = "__module__" then some (str "__main__")
  else builtinAttribute? c.base key

def ofLiteral : Literal → Value
  | .bool b => bool b
  | .str s => str s
  | .int i => int i
  | .float x => float x

def nodeAttribute? (key : String) : TypeExpr → Option Value
  | .literal v => if key = "value" then some (ofLiteral v) else Option.none
  | .primitive kind => if key = "kind" then some (str kind.name) else Option.none
  | .nullable t => if key = "inner" then some (node t) else Option.none
  | .array t => if key = "element" then some (node t) else Option.none
  | .tuple ts => if key = "elements" then some (tuple (ts.map node)) else Option.none
  | .object ps =>
    if key = "properties" then some (tuple (ps.map fun p => node (.stray p))) else Option.none
  | .union ts => if key = "members" then some (tuple (ts.map node)) else Option.none
  | .intersection ts => if key = "members" then some (tuple (ts.map node)) else Option.none
  | .named name => if key = "name" then some (str name) else Option.none
  | .function ps t =>
    if key = "params" then some (tuple (ps.map node))
    else if key = "return_type" then some (node t)
    else Option.none
  | .stray p =>
    if key = "key" then some (str p.key)
    else if key = "value" then some (node p.value)
    else if key = "optional" then some (bool p.optional)
    else Option.none
  | .derived _ t => nodeAttribute? key t
  | _ => Option.none

/-- An attribute of a value: of a class, of a tree, or of a structured value. Checks read no others.
-/
def attribute? (v : Value) (key : String) : Option Value :=
  match v with
  | inst _ c _ attributes => (attributes.lookup key).or (instanceAttribute? c attributes key)
  | type _ attributes => attributes.lookup key
  | node t => (nodeAttribute? key t).or (builtinAttribute? .object key)
  | list _ => builtinAttribute? .list key
  | tuple _ => builtinAttribute? .tuple key
  | set _ => builtinAttribute? .set key
  | bytes _ => builtinAttribute? .bytes key
  | _ => Option.none

def stored (entries : List (Value × Value)) (key : String) : Option Value :=
  (entries.find? fun e => e.1.string? = some key).map Prod.snd

/-- Reads a named field: of a dictionary by key, of anything else by attribute. -/
def readProperty (v : Value) (key : String) : Value :=
  match v.core with
  | dict _ entries => (stored entries key).getD undefined
  | _ => (v.attribute? key).getD undefined

/-! ## Equality of keys -/

/-- What a key denotes as a number, truth values being zero and one. -/
def keyMagnitude? (v : Value) : Option Magnitude :=
  match v.core with
  | bool b => some (.ofInt (if b then 1 else 0))
  | decimal _ m => some m
  | complex re im => if (Magnitude.ofBinary64 im).isZero then some (.ofBinary64 re) else Option.none
  | v => v.magnitude?

def sameAtom (a b : Value) : Bool :=
  match keyMagnitude? a, keyMagnitude? b with
  | some m, some n => m.same n
  | _, _ =>
    match a, b with
    | none, none => true
    | undefined, undefined => true
    | str s, str t => s = t
    | rawStr s, rawStr t => s = t
    | bytes s, bytes t => s = t
    | complex r i, complex r' i' =>
      (Magnitude.ofBinary64 r).same (.ofBinary64 r') && (Magnitude.ofBinary64 i).same (.ofBinary64 i')
    | type c _, type d _ => c.id = d.id
    | inst i _ _ _, inst j _ _ _ => i = j
    | agent _ i, agent _ j => i = j
    | node t, node u => t.same u
    | _, _ => false

def sameKey : Value → Value → Bool
  | inst _ _ (some content) _, b => content.sameKey b
  | tuple as, b =>
    match b.core with
    | tuple bs => sameKeys as bs
    | _ => false
  | a, b => sameAtom a b.core
termination_by structural a => a
where
  sameKeys : List Value → List Value → Bool
    | [], [] => true
    | a :: as, b :: bs => sameKey a b && sameKeys as bs
    | _, _ => false
  termination_by structural as => as

/-- Stores a value under a key, in the place of an equal key if there is one. -/
def insertEntry (entries : List (Value × Value)) (key value : Value) : List (Value × Value) :=
  if entries.any fun e => e.1.sameKey key then
    entries.map fun e => if e.1.sameKey key then (e.1, value) else e
  else entries ++ [(key, value)]

/-- The entries of a dictionary built from pairs; of equal keys the first one keeps its place and
the last value counts. -/
def entriesOf (pairs : List (Value × Value)) : List (Value × Value) :=
  pairs.foldl (fun entries p => insertEntry entries p.1 p.2) []

end Value

end TypeGuard
