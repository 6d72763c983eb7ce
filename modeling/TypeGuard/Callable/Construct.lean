import TypeGuard.Callable.Run

/-! # Classes and their instances

How classes are defined and instances made. An instance of a class derived from a built-in one holds
the value that the built-in class makes of its argument; a named tuple holds its fields and shows
them as attributes.
-/

namespace TypeGuard

/-! ## Content -/

def BuiltinClass.blank : BuiltinClass → StateM World (Option Value)
  | object => return none
  | noneType => return some .none
  | bool => return some (.bool false)
  | int => return some (.int 0)
  | float => return some (.float (.zero false))
  | fraction => return some (.fraction 0)
  | decimal => return some (.decimal "0" (.ofInt 0))
  | complex => return some (.complex (.zero false) (.zero false))
  | str => return some (.str "")
  | bytes => return some (.bytes [])
  | set => return some (.set [])
  | tuple => return some (.tuple [])
  | list => do return some (← World.newList [])
  | dict => return some (.dict false [])
  | orderedDict => return some (.dict true [])

def World.itemsOf (w : World) (v : Value) : Option (List Value) :=
  match v.core with
  | .list id => some (w.items id)
  | .tuple vs => some vs
  | .set vs => some vs
  | .dict _ entries => some (entries.map Prod.fst)
  | .str s => some (s.toList.map fun c => .str (String.ofList [c]))
  | .rawStr codes => some (codes.map fun n => .ofCodes [n])
  | _ => none

/-- A real number as a binary64 number, the nearest one; truth values are zero and one. -/
def Value.binary64? (v : Value) : Option Binary64 :=
  match v.core with
  | .bool b => some (.ofInt (if b then 1 else 0))
  | .int i => some (.ofInt i)
  | .float x => some x
  | .fraction q => some (.ofRatio (q < 0) q.num.natAbs q.den)
  | _ => Option.none

def Value.rational? (v : Value) : Option Rat :=
  match v.core with
  | .bool b => some (if b then 1 else 0)
  | .int i => some i
  | .fraction q => some q
  | _ => Option.none

def BuiltinClass.convert (c : BuiltinClass) (v : Value) : StateM World Value := do
  let w ← get
  match c, v.core with
  | .bool, _ => return .bool (w.truth v)
  | .int, .bool b => return .int (if b then 1 else 0)
  | .float, core => return (v.binary64?.map Value.float).getD core
  | .complex, core => return (v.binary64?.map fun x => .complex x (.zero false)).getD core
  | .fraction, core => return (v.rational?.map Value.fraction).getD core
  | .list, core =>
    match w.itemsOf v with
    | some vs => World.newList vs
    | none => return core
  | .tuple, core => return ((w.itemsOf v).map Value.tuple).getD core
  | .dict, .dict _ entries => return .dict false entries
  | .orderedDict, .dict _ entries => return .dict true entries
  | _, core => return core

/-- The value that a built-in class makes of two values, the first of which may be absent: a complex
number of its parts, and a fraction. An absent context or denominator counts for nothing. -/
def BuiltinClass.combine (c : BuiltinClass) (first : Option Value) (second : Value) : Option Value :=
  match c, second with
  | .complex, im => do
    return .complex (← (first.getD (.int 0)).binary64?) (← im.binary64?)
  | .fraction, .none => first.getD (.int 0)
  | .fraction, d => do
    let n ← (first.getD (.int 0)).rational?
    let d ← d.rational?
    if d = 0 then none else return .fraction (n / d)
  | .decimal, .none => first.getD (.decimal "0" (.ofInt 0))
  | _, _ => none

/-! ## Classes -/

/-- Class identities without repetition; of equal ones the last counts. -/
def mergeLineages (ids : List ClassId) : List ClassId :=
  ids.foldr (fun id ids => if ids.contains id then ids else id :: ids) []

namespace World

def builtinClass (c : BuiltinClass) : Value :=
  .type (.ofBuiltin c) []

/-- The functions that a class defines, if any: the one that a call of an instance runs, the one that
runs before an instance is made, and the one that runs when it is made. -/
structure ClassFunctions where
  call : Option Nat := none
  makes : Option Nat := none
  initializes : Option Nat := none

/-- Defines a class. Without bases it derives from `object`, with fields of its own from `tuple`;
attributes and the rest are inherited from the first base that has them. -/
def defineClass (name : String) (bases : List Value) (attributes : List (String × Value))
    (fields : Option (List String)) (functions : ClassFunctions) (inspectable : Bool) :
    StateM World Value := fun w =>
  let bases := bases.filterMap fun b =>
    match b with
    | .type c attributes => some (c, attributes)
    | _ => none
  let infos := bases.map Prod.fst
  let root : BuiltinClass := if fields.isSome then .tuple else .object
  let id := ClassId.defined w.classes
  let ancestors := infos.flatMap ClassInfo.lineage ++ root.lineage.map ClassId.builtin
  let info : ClassInfo :=
    { id := id
      name := name
      lineage := mergeLineages (id :: ancestors)
      base := ((infos.map ClassInfo.base).find? (· ≠ .object)).getD root
      fields := fields.or (infos.findSome? ClassInfo.fields)
      call := functions.call.or (infos.findSome? ClassInfo.call)
      inspectable := inspectable && infos.all ClassInfo.inspectable
      makes := functions.makes.or (infos.findSome? ClassInfo.makes)
      initializes := functions.initializes.or (infos.findSome? ClassInfo.initializes)
      reports :=
        (functions.makes.or functions.initializes).or (infos.findSome? ClassInfo.reports) }
  (.type info (attributes ++ bases.flatMap Prod.snd), { w with classes := w.classes + 1 })

end World

/-! ## Instances -/

namespace ClassInfo

def instantiate (c : ClassInfo) (content : Option Value) (attributes : List (String × Value)) :
    StateM World Value :=
  match c.id, content with
  | .builtin _, some v => return v
  | _, _ => World.newInstance c content attributes

def create (c : ClassInfo) (inherited : List (String × Value)) (v : Option Value)
    (own : List (String × Value)) : StateM World Value := do
  let content ←
    match v with
    | some v => some <$> c.base.convert v
    | none => c.base.blank
  let fields :=
    match c.fields, content with
    | some names, some (.tuple vs) => names.zip vs
    | _, _ => []
  c.instantiate content (own ++ fields ++ inherited)

/-- Makes an instance of a class derived from a built-in one from the values of the parameters of the
built-in class, of which some may be absent. -/
def build (c : ClassInfo) (inherited : List (String × Value)) (vs : List (Option Value)) :
    Run Value :=
  match vs with
  | [first, some second] =>
    match c.base.combine first second with
    | some v => Run.ofState (c.create inherited (some v) [])
    | none => throw .misuse
  | vs => Run.ofState (c.create inherited vs.head?.join [])

def construct (c : ClassInfo) (inherited : List (String × Value)) (args : Arguments) : Run Value :=
  match c.fields with
  | some names =>
    let params := names.map fun name => Parameter.mk name .positional false
    match Parameter.bind Value.none params args.positional args.keywords with
    | none => throw .misuse
    | some vs => Run.ofState (c.create inherited (some (.tuple vs)) [])
  | none =>
    match World.builtinParameters c.base with
    | some params =>
      match Parameter.bind Option.none params (args.positional.map some)
          (args.keywords.map fun k => (k.1, some k.2)) with
      | none => throw .misuse
      | some vs => c.build inherited vs
    | none =>
      match args.positional, args.keywords with
      | [], [] => Run.ofState (c.create inherited none [])
      | [v], [] => Run.ofState (c.create inherited (some v) [])
      | _, _ => throw .misuse

def make (c : ClassInfo) (inherited : List (String × Value)) (args : Arguments) : Run Value :=
  if c.takesArguments then c.construct inherited args
  else Run.ofState (c.create inherited none [])

def runPart (agent : Nat → Arguments → Run Value) (part : Option Nat) (args : Arguments) :
    Run Value :=
  match part with
  | some id => agent id args
  | none => return .none

/-- A call of a class, given the calls of functions. What initializes an instance returns nothing. -/
def new (agent : Nat → Arguments → Run Value) (c : ClassInfo) (inherited : List (String × Value))
    (args : Arguments) : Run Value := do
  let _ ← runPart agent c.makes args
  let v ← c.make inherited args
  let answer ← runPart agent c.initializes args
  if answer.isNull then return v else throw .misuse

end ClassInfo

/-- Fixes leading arguments and some keywords of a callable; what was fixed before comes first, unless
it has attributes of its own. -/
def World.fixArguments (callee : Value) (args : List Value) (keywords : List (String × Value)) :
    StateM World Value := do
  let w ← get
  let direct := World.newAgent (.application callee args keywords []) false
  match callee with
  | .agent _ id =>
    match w.agent? id with
    | some (.application callee before fixed []) =>
      let all := (Arguments.mk args keywords).behind before fixed
      World.newAgent (.application callee all.positional all.keywords []) false
    | _ => direct
  | _ => direct

end TypeGuard
