import TypeGuard.Callable.World

/-! # Documents

The tree of a JSON document, as written: members keep their order, and a key may occur twice.
Numbers without a fraction and an exponent are integers of any size. A text is a sequence of code
points, some of which may be no characters.
-/

namespace TypeGuard

/-- A text of a document: of characters only, or with some code point that is none. -/
inductive JsonText where
  | valid (s : String)
  | raw (codes : List Nat)
deriving DecidableEq, Repr, Inhabited

def JsonText.ofCodes (codes : List Nat) : JsonText :=
  if codes.any Text.isSurrogate then raw codes else valid (String.ofList (codes.map Char.ofNat))

def JsonText.value : JsonText → Value
  | valid s => .str s
  | raw codes => .rawStr codes

inductive Json where
  | null
  | bool (b : Bool)
  | int (i : Int)
  | float (x : Binary64)
  | str (s : JsonText)
  | array (items : List Json)
  | object (members : List (JsonText × Json))
deriving Inhabited

namespace Json

/-- The value that a document denotes; an array becomes a new list. -/
def toValue : Json → StateM World Value
  | null => return .none
  | bool b => return .bool b
  | int i => return .int i
  | float x => return .float x
  | str s => return s.value
  | array items => do World.newList (← ofItems items)
  | object members => do return .dict false (Value.entriesOf (← ofMembers members))
termination_by structural j => j
where
  /-- The values of items, in order. -/
  ofItems : List Json → StateM World (List Value)
    | [] => return []
    | j :: js => do
      let v ← j.toValue
      return v :: (← ofItems js)
  termination_by structural js => js
  /-- The values of members under their keys, in order. -/
  ofMembers : List (JsonText × Json) → StateM World (List (Value × Value))
    | [] => return []
    | (key, j) :: members => do
      let v ← j.toValue
      return (key.value, v) :: (← ofMembers members)
  termination_by structural members => members

end Json

end TypeGuard
