import TypeGuard.Value.Basic

/-! # Checks

A compiled type is a tree of tests. Running it asks its surroundings what a list holds at that
moment, what attributes a value has, of what classes it is an instance, and what a callback says about
it; all of this may have effects. Tests are run from left to right and no further than needed.
-/

namespace TypeGuard

/-- A test of values, over the callbacks of a type `ρ`. -/
inductive Check (ρ : Type) where
  | any
  | null
  | void
  | string
  | number
  | boolean
  | callable
  | structured
  | literal (v : Literal)
  | nominal (name : String)
  | instanceOf (c : ClassInfo)
  | callback (r : ρ)
  | nullable (inner : Check ρ)
  | array (element : Check ρ)
  | tuple (elements : List (Check ρ))
  | object (fields : List (String × Check ρ))
  | union (members : List (Check ρ))
  | intersection (members : List (Check ρ))
deriving Inhabited

/-- Strict equality with a literal: a truth value equals no number, and a text equals no number. -/
def Literal.accepts (l : Literal) (v : Value) : Bool :=
  match l with
  | .bool b =>
    match v with
    | .bool c => b = c
    | _ => false
  | .str s => v.string? = some s
  | .int i => v.magnitude?.any (·.same (.ofInt i))
  | .float x => v.magnitude?.any (·.same (.ofBinary64 x))

/-- Structured values whose class has exactly the given name. -/
def Value.isNamed (v : Value) (name : String) : Bool :=
  v.isObject && v.className = name

/-- What running a check over callbacks of a type `ρ` asks of its surroundings. -/
structure Surroundings (m : Type → Type) (ρ : Type) where
  /-- How many items a list has now. -/
  length : Nat → m Nat
  /-- The item that a list has now at a place. -/
  item : Nat → Nat → m (Option Value)
  /-- A list never grows beyond this many items. -/
  capacity : Nat
  /-- Reads an attribute of a structured value. -/
  attributeOf : Value → String → m (Option Value)
  isInstance : Value → ClassInfo → m Bool
  /-- What a callback says about a value. -/
  ask : ρ → Value → m Bool
  /-- A test as a step of a generator, which shows some failures as other ones. -/
  sealed : m Bool → m Bool

namespace Surroundings

variable {m : Type → Type} [Monad m] {ρ : Type} (s : Surroundings m ρ)

def lengthOf (v : Value) : m (Option Nat) :=
  match v.core with
  | .list id => some <$> s.length id
  | .tuple vs => return some vs.length
  | _ => return none

def itemOf (v : Value) (index : Nat) : m (Option Value) :=
  match v.core with
  | .list id => s.item id index
  | .tuple vs => return vs[index]?
  | _ => return none

/-- Reads a named field: of a dictionary by key, of anything else by attribute. -/
def read (v : Value) (key : String) : m Value :=
  match v.core with
  | .dict _ entries => return (Value.stored entries key).getD .undefined
  | _ => do return (← s.attributeOf v key).getD .undefined

end Surroundings

namespace Check

section Run

variable {m : Type → Type} [Monad m] {ρ : Type}

/-- Whether a test holds of all items from a place on, asked up to the first that fails it. Each item
is read when its turn comes; there are fewer than `steps` of them. -/
def allFrom (item : Nat → m (Option Value)) (test : Value → m Bool) : Nat → Nat → m Bool
  | 0, _ => return true
  | steps + 1, index => do
    match ← item index with
    | none => return true
    | some v => if ← test v then allFrom item test steps (index + 1) else return false

variable (s : Surroundings m ρ)

def run : Check ρ → Value → m Bool
  | any, _ => return true
  | null, v => return v.isNull
  | void, v => return v.isVoid
  | string, v => return v.isString
  | number, v => return v.isNumber
  | boolean, v => return v.isBoolean
  | callable, v => return v.isCallable
  | structured, v => return v.isObject
  | literal l, v => return l.accepts v
  | nominal name, v => return v.isNamed name
  | instanceOf c, v => s.isInstance v c
  | callback r, v => s.ask r v
  | nullable c, v => if v.isNullish then return true else c.run v
  | array c, v => do
    match ← s.lengthOf v with
    | none => return false
    | some n => allFrom (s.itemOf v) (fun u => s.sealed (c.run u)) (n + s.capacity + 1) 0
  | tuple cs, v => do
    match ← s.lengthOf v with
    | none => return false
    | some n => if n ≠ cs.length then return false else runEach cs v 0
  | object fields, v => if v.isObject then runFields fields v else return false
  | union cs, v => runAny cs v
  | intersection cs, v => runAll cs v
termination_by structural c => c
where
  /-- Runs checks on the items of a value from a place on. -/
  runEach : List (Check ρ) → Value → Nat → m Bool
    | [], _, _ => return true
    | c :: cs, v, index => do
      match ← s.itemOf v index with
      | none => return true
      | some u => if ← s.sealed (c.run u) then runEach cs v (index + 1) else return false
  termination_by structural cs => cs
  /-- Runs checks on the properties of a value. -/
  runFields : List (String × Check ρ) → Value → m Bool
    | [], _ => return true
    | (key, c) :: fields, v => do
      if ← s.sealed (do c.run (← s.read v key)) then runFields fields v else return false
  termination_by structural fields => fields
  runAny : List (Check ρ) → Value → m Bool
    | [], _ => return false
    | c :: cs, v => do if ← s.sealed (c.run v) then return true else runAny cs v
  termination_by structural cs => cs
  runAll : List (Check ρ) → Value → m Bool
    | [], _ => return true
    | c :: cs, v => do if ← s.sealed (c.run v) then runAll cs v else return false
  termination_by structural cs => cs

/-! ### Running the parts -/

theorem run_nullable (c : Check ρ) (v : Value) :
    (nullable c).run s v = if v.isNullish then return true else c.run s v := rfl

theorem run_array (c : Check ρ) (v : Value) :
    (array c).run s v =
      (do match ← s.lengthOf v with
        | none => return false
        | some n =>
          allFrom (s.itemOf v) (fun u => s.sealed (c.run s u)) (n + s.capacity + 1) 0) := rfl

theorem run_tuple (cs : List (Check ρ)) (v : Value) :
    (tuple cs).run s v =
      (do match ← s.lengthOf v with
        | none => return false
        | some n => if n ≠ cs.length then return false else run.runEach s cs v 0) := rfl

theorem run_object (fields : List (String × Check ρ)) (v : Value) :
    (object fields).run s v =
      if v.isObject then run.runFields s fields v else return false := rfl

theorem run_union (cs : List (Check ρ)) (v : Value) :
    (union cs).run s v = run.runAny s cs v := rfl

theorem run_intersection (cs : List (Check ρ)) (v : Value) :
    (intersection cs).run s v = run.runAll s cs v := rfl

theorem runEach_cons (c : Check ρ) (cs : List (Check ρ)) (v : Value) (index : Nat) :
    run.runEach s (c :: cs) v index =
      (do match ← s.itemOf v index with
        | none => return true
        | some u =>
          if ← s.sealed (c.run s u) then run.runEach s cs v (index + 1) else return false) := rfl

theorem runFields_cons (f : String × Check ρ) (fields : List (String × Check ρ)) (v : Value) :
    run.runFields s (f :: fields) v =
      (do
        if ← s.sealed (do f.2.run s (← s.read v f.1)) then run.runFields s fields v
        else return false) := rfl

theorem runAny_nil (v : Value) : run.runAny s [] v = pure false := rfl

theorem runAny_cons (c : Check ρ) (cs : List (Check ρ)) (v : Value) :
    run.runAny s (c :: cs) v =
      (do if ← s.sealed (c.run s v) then return true else run.runAny s cs v) := rfl

theorem runAll_nil (v : Value) : run.runAll s [] v = pure true := rfl

theorem runAll_cons (c : Check ρ) (cs : List (Check ρ)) (v : Value) :
    run.runAll s (c :: cs) v =
      (do if ← s.sealed (c.run s v) then run.runAll s cs v else return false) := rfl

end Run

end Check

end TypeGuard
