/-! # Binary floating-point numbers

The numbers of the binary64 format as exact values, and the number nearest to a given ratio. Ties go
to the even significand, and what exceeds the largest finite number is infinite.
-/

namespace TypeGuard

-- Powers are those of the natural numbers themselves, whatever else is in scope.
attribute [local instance (2000)] instPowNat

/-- A number of the binary64 format. A finite one has the magnitude `significand * 2 ^ exponent`. -/
inductive Binary64 where
  | nan
  | infinity (negative : Bool)
  | finite (negative : Bool) (significand : Nat) (exponent : Int)
deriving DecidableEq, Repr

namespace Binary64

/-- The least exponent, that of the subnormal numbers. -/
def minExponent : Int := -1074

def maxExponent : Int := 971

/-- Normal numbers fill 53 bits; all others have the least exponent. -/
def IsCanonical : Binary64 → Prop
  | finite _ significand exponent =>
    significand < 2 ^ (53 : Nat) ∧ minExponent ≤ exponent ∧ exponent ≤ maxExponent ∧
      (2 ^ (52 : Nat) ≤ significand ∨ exponent = minExponent)
  | _ => True

def zero (negative : Bool) : Binary64 :=
  finite negative 0 minExponent

/-- The integer nearest to a ratio, the even one of two. -/
def roundHalfEven (num den : Nat) : Nat :=
  let q := num / den
  let twice := 2 * (num % den)
  if twice < den || (twice == den && q % 2 == 0) then q else q + 1

/-- The integer `k` with `2 ^ k ≤ num / den < 2 ^ (k + 1)`, for a positive ratio. -/
def floorLog2 (num den : Nat) : Int :=
  let k : Int := (num.log2 : Int) - den.log2
  if den * 2 ^ k.toNat ≤ num * 2 ^ (-k).toNat then k else k - 1

/-- The number nearest to `num / den`, with the given sign. -/
def ofRatio (negative : Bool) (num den : Nat) : Binary64 :=
  if num = 0 then zero negative
  else
    let exponent := max (floorLog2 num den - 52) minExponent
    let significand := roundHalfEven (num * 2 ^ (-exponent).toNat) (den * 2 ^ exponent.toNat)
    let (significand, exponent) :=
      if significand = 2 ^ (53 : Nat) then (2 ^ (52 : Nat), exponent + 1)
      else (significand, exponent)
    if maxExponent < exponent then infinity negative
    else finite negative significand exponent

def ratio (significand : Nat) (exponent : Int) : Nat × Nat :=
  (significand * 2 ^ exponent.toNat, 2 ^ (-exponent).toNat)

def ofInt (i : Int) : Binary64 :=
  ofRatio (i < 0) i.natAbs 1

end Binary64

end TypeGuard
