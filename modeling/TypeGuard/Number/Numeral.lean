/-! # Numerals

The decimal notation of numbers: a sign, digits without superfluous zeros in front, and a fraction
and an exponent that may be missing. Without both of them a numeral denotes an integer.
-/

namespace TypeGuard

def digitChars (n : Nat) : List Char :=
  Nat.toDigits 10 n

def natOfDigits (cs : List Char) : Nat :=
  cs.foldl (fun n c => 10 * n + (c.toNat - 48)) 0

def intChars (i : Int) : List Char :=
  if i < 0 then '-' :: digitChars i.natAbs else digitChars i.natAbs

def intOfChars : List Char → Int
  | '-' :: cs => -(natOfDigits cs)
  | cs => natOfDigits cs

/-- The parts of a numeral; the fraction is empty if there is none. -/
structure Numeral where
  negative : Bool
  whole : List Char
  fraction : List Char
  exponent : Option Int
deriving DecidableEq, Repr

namespace Numeral

/-- The digits before the point: a zero, or a run of digits that begins with another one. -/
def scanWhole : List Char → Option (List Char × List Char)
  | [] => none
  | c :: cs =>
    if c = '0' then some (['0'], cs)
    else if c.isDigit then some (c :: cs.takeWhile Char.isDigit, cs.dropWhile Char.isDigit)
    else none

/-- A point and the digits after it, or nothing if no digit follows. -/
def scanFraction : List Char → List Char × List Char
  | '.' :: cs =>
    let digits := cs.takeWhile Char.isDigit
    if digits.isEmpty then ([], '.' :: cs) else (digits, cs.dropWhile Char.isDigit)
  | cs => ([], cs)

/-- A sign that may be missing; whether it is a minus. -/
def scanSign : List Char → Bool × List Char
  | '-' :: cs => (true, cs)
  | '+' :: cs => (false, cs)
  | cs => (false, cs)

/-- The letter `e` in either case and an exponent, or nothing if no digit follows. -/
def scanExponent (cs : List Char) : Option Int × List Char :=
  match cs with
  | [] => (none, cs)
  | c :: afterLetter =>
    if c = 'e' || c = 'E' then
      let (negative, rest) := scanSign afterLetter
      let digits := rest.takeWhile Char.isDigit
      let n : Int := natOfDigits digits
      if digits.isEmpty then (none, cs)
      else (some (if negative then -n else n), rest.dropWhile Char.isDigit)
    else (none, cs)

def scan (cs : List Char) : Option (Numeral × List Char) :=
  let (negative, unsigned) :=
    match cs with
    | '-' :: rest => (true, rest)
    | _ => (false, cs)
  match scanWhole unsigned with
  | none => none
  | some (whole, rest) =>
    let (fraction, rest) := scanFraction rest
    let (exponent, rest) := scanExponent rest
    some (⟨negative, whole, fraction, exponent⟩, rest)

def isInteger (n : Numeral) : Bool :=
  n.fraction.isEmpty && n.exponent.isNone

def toInt (n : Numeral) : Int :=
  if n.negative then -(natOfDigits n.whole) else natOfDigits n.whole

end Numeral

end TypeGuard
