import TypeGuard.Number.Decimal

/-! # Exact comparison of numbers

Integers, fractions and binary64 numbers are compared as the real numbers they denote, without
rounding. Infinities equal themselves; a number that is not one equals nothing.
-/

namespace TypeGuard

-- Powers are those of the natural numbers themselves, whatever else is in scope.
attribute [local instance (2000)] instPowNat

/-- What a number denotes on the extended real line. -/
inductive Magnitude where
  | rational (q : Rat)
  | infinite (negative : Bool)
  | undefined
deriving DecidableEq

namespace Magnitude

def ofInt (i : Int) : Magnitude :=
  rational i

def ofBinary64 : Binary64 → Magnitude
  | .nan => undefined
  | .infinity negative => infinite negative
  | .finite negative significand exponent =>
    let (num, den) := Binary64.ratio significand exponent
    rational (mkRat (if negative then -(num : Int) else num) den)

def ofNumeral (n : Numeral) : Magnitude :=
  let d := n.decimal
  let size := mkRat (d.digits * 10 ^ d.exponent.toNat) (10 ^ (-d.exponent).toNat)
  rational (if n.negative then -size else size)

def same : Magnitude → Magnitude → Bool
  | rational p, rational q => p = q
  | infinite m, infinite n => m = n
  | _, _ => false

def isZero : Magnitude → Bool
  | rational q => q = 0
  | _ => false

end Magnitude

end TypeGuard
