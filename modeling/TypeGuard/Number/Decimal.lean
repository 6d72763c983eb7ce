import TypeGuard.Number.Binary64
import TypeGuard.Number.Numeral

/-! # Decimal numerals

A numeral with a fraction or an exponent is read as the nearest binary64 number, and such a number
is written with the fewest digits that read back. Positional notation serves from `1e-04` up to
below `1e+16`, always with a point; beyond that the exponent has at least two digits.
-/

namespace TypeGuard

-- Powers are those of the natural numbers themselves, whatever else is in scope.
attribute [local instance (2000)] instPowNat

/-- The unsigned number `digits * 10 ^ exponent`. -/
structure Decimal where
  digits : Nat
  exponent : Int
deriving DecidableEq, Repr

/-- The binary64 number nearest to a decimal. Exponents far out of range are settled by size alone.
-/
def Decimal.toBinary64 (negative : Bool) (d : Decimal) : Binary64 :=
  let size : Int := (digitChars d.digits).length + d.exponent
  if d.digits = 0 || size < -330 then .zero negative
  else if 330 < size then .infinity negative
  else .ofRatio negative (d.digits * 10 ^ d.exponent.toNat) (10 ^ (-d.exponent).toNat)

namespace Numeral

def decimal (n : Numeral) : Decimal :=
  ⟨natOfDigits (n.whole ++ n.fraction), n.exponent.getD 0 - n.fraction.length⟩

def toBinary64 (n : Numeral) : Binary64 :=
  n.decimal.toBinary64 n.negative

end Numeral

namespace Binary64

/-- The integer `k` with `10 ^ k ≤ num / den < 10 ^ (k + 1)`, for a positive ratio. -/
def floorLog10 (num den : Nat) : Int :=
  let k : Int := ((digitChars num).length : Int) - (digitChars den).length
  if den * 10 ^ k.toNat ≤ num * 10 ^ (-k).toNat then k else k - 1

/-- The better of two neighbours `q` and `q + 1` of a ratio on a decimal grid, among those that
read back as `x`: the nearer one, the even one of two. -/
def nearestReading (x : Binary64) (num den q : Nat) (unit : Int) : Option Decimal :=
  let reads (d : Nat) : Bool := (Decimal.mk d unit).toBinary64 false == x
  let nearest := roundHalfEven num den
  let other := if nearest = q then q + 1 else q
  if reads nearest then some ⟨nearest, unit⟩
  else if reads other then some ⟨other, unit⟩
  else none

/-- The decimal of a given number of digits that reads back as a positive number, if there is one.
-/
def decimalOfLength (significand : Nat) (exponent : Int) (length : Nat) : Option Decimal :=
  let (num, den) := ratio significand exponent
  let unit := floorLog10 num den - length + 1
  let num := num * 10 ^ (-unit).toNat
  let den := den * 10 ^ unit.toNat
  nearestReading (finite false significand exponent) num den (num / den) unit

def exactDecimal (significand : Nat) (exponent : Int) : Decimal :=
  if 0 ≤ exponent then ⟨significand * 2 ^ exponent.toNat, 0⟩
  else ⟨significand * 5 ^ (-exponent).toNat, exponent⟩

/-- The decimal with the fewest digits that reads back as a finite magnitude. -/
def shortestDecimal (significand : Nat) (exponent : Int) : Decimal :=
  if significand = 0 then ⟨0, 0⟩
  else
    ((List.range' 1 17).findSome? (decimalOfLength significand exponent)).getD
      (exactDecimal significand exponent)

def trimZeros (cs : List Char) : List Char :=
  (cs.reverse.dropWhile (· = '0')).reverse

/-- An exponent with its sign and at least two digits. -/
def exponentChars (e : Int) : List Char :=
  let ds := digitChars e.natAbs
  (if e < 0 then '-' else '+') :: (if ds.length < 2 then '0' :: ds else ds)

/-- Writes significant digits of which the first has the weight `10 ^ magnitude`. -/
def layOut (ds : List Char) (magnitude : Int) : List Char :=
  if magnitude < -4 || 16 ≤ magnitude then
    match ds with
    | [] => []
    | d :: more =>
      (d :: (if more.isEmpty then [] else '.' :: more)) ++ 'e' :: exponentChars magnitude
  else if magnitude < 0 then
    '0' :: '.' :: (List.replicate (-magnitude - 1).toNat '0' ++ ds)
  else
    let whole := magnitude.toNat + 1
    let fraction := ds.drop whole
    ds.take whole ++ List.replicate (whole - ds.length) '0' ++
      '.' :: (if fraction.isEmpty then ['0'] else fraction)

def magnitudeChars (significand : Nat) (exponent : Int) : List Char :=
  let d := shortestDecimal significand exponent
  let ds := digitChars d.digits
  if d.digits = 0 then ['0', '.', '0']
  else layOut (trimZeros ds) (d.exponent + ds.length - 1)

def chars : Binary64 → List Char
  | nan => ['n', 'a', 'n']
  | infinity false => ['i', 'n', 'f']
  | infinity true => ['-', 'i', 'n', 'f']
  | finite negative significand exponent =>
    let cs := magnitudeChars significand exponent
    if negative then '-' :: cs else cs

def text (x : Binary64) : String :=
  String.ofList x.chars

end Binary64

end TypeGuard
