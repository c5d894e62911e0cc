import Sitewright.Number.Width

/-!
Double precision numbers. A finite one is `significand * 2 ^ unit / 2 ^ 1074` with a sign, where the
significand is below `2 ^ 53`, and at least `2 ^ 52` unless the unit is zero. Ratios are rounded to the
nearest number, and halfway between two of them to the one with an even significand.
-/

namespace Sitewright

/-- A double precision number. -/
inductive Double where
  | finite (negative : Bool) (significand unit : Nat)
  | infinite (negative : Bool)
  | nan
  deriving DecidableEq, Repr

namespace Double

def zero (negative : Bool) : Double := finite negative 0 0

def maxUnit : Nat := 2045

/-- A quotient rounded to the nearest integer, a half to the even one. -/
def roundQuotient (num den : Nat) : Nat :=
  let quotient := num / den
  let twice := 2 * (num % den)
  if den < twice || (twice = den && quotient % 2 = 1) then quotient + 1 else quotient

/-- The unit in which a ratio has a significand of 53 bits, or the least unit. -/
def unitOf (num den : Nat) : Nat :=
  let whole := num / den
  if whole < twoTo 53 then 0 else Nat.log2 whole - 52

def ofScaledRatio (negative : Bool) (num den : Nat) : Double :=
  let unit := unitOf num den
  let significand := roundQuotient num (den * twoTo unit)
  let (significand, unit) :=
    if significand = twoTo 53 then (twoTo 52, unit + 1) else (significand, unit)
  if maxUnit < unit then infinite negative else finite negative significand unit

def ofRatio (negative : Bool) (num den : Nat) : Double :=
  ofScaledRatio negative (num * twoTo 1074) den

def ofInt (i : Int) : Double :=
  ofRatio (decide (i < 0)) i.natAbs 1

def powerOfTen (exponent : Nat) : Double :=
  ofRatio false (tenTo exponent) 1

/-- Whether a sign comes out of two. -/
def signs (a b : Bool) : Bool := a != b

def mul : Double → Double → Double
  | finite a s p, finite b t q => ofScaledRatio (signs a b) (s * t * twoTo (p + q)) (twoTo 1074)
  | _, _ => nan

def div : Double → Double → Double
  | finite a s p, finite b t q =>
    if t = 0 then (if s = 0 then nan else infinite (signs a b))
    else ofScaledRatio (signs a b) (s * twoTo p * twoTo 1074) (t * twoTo q)
  | _, _ => nan

def neg : Double → Double
  | finite negative significand unit => finite (!negative) significand unit
  | infinite negative => infinite (!negative)
  | nan => nan

def isZero : Double → Bool
  | finite _ significand _ => significand = 0
  | _ => false

def isFinite : Double → Bool
  | finite _ _ _ => true
  | _ => false

/-- The number of decimal digits of a natural number; zero has none. -/
def digitCount (n : Nat) : Nat :=
  if n = 0 then 0 else (Nat.toDigits 10 n).length

/-- The number nearest to `digits * 10 ^ exponent`. What is far out of range is decided by its size
alone. -/
def ofDecimal (negative : Bool) (digits : Nat) (exponent : Int) : Double :=
  let size : Int := exponent + digitCount digits
  if digits = 0 || size < -400 then zero negative
  else if 400 < size then infinite negative
  else if 0 ≤ exponent then ofRatio negative (digits * tenTo exponent.toNat) 1
  else ofRatio negative digits (tenTo (-exponent).toNat)

end Double

end Sitewright
