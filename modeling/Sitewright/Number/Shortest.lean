import Sitewright.Number.Double
import Sitewright.Text.Basic

/-!
The text of a double: the fewest decimal digits that read back as the same number, of those the nearest
to it, written without an exponent and without a point if there is nothing after it.
-/

namespace Sitewright.Double

/-- A positive double with the ends of the interval that reads back as it, all over `2 ^ 1076`. -/
structure Interval where
  value : Nat
  low : Nat
  high : Nat
  /-- Whether the ends read back too. -/
  closed : Bool

def intervalScale : Nat := twoTo 1076

/-- The interval of a positive double. Below a power of two the neighbour is nearer. -/
def interval (significand unit : Nat) : Interval :=
  let step := twoTo unit
  let value := 4 * significand * step
  let below := if significand = twoTo 52 && 0 < unit then step else 2 * step
  ⟨value, value - below, value + 2 * step, significand % 2 = 0⟩

/-- The least number of times, from `count` on, that a value below one has to be multiplied by ten to
reach one. -/
def leadingZeros (value : Nat) : Nat → Nat → Nat
  | 0, count => count
  | rounds + 1, count =>
    if intervalScale ≤ value * tenTo count then count else leadingZeros value rounds (count + 1)

/-- The number of digits before the point, negative for zeros after it. -/
def pointPlace (value : Nat) : Int :=
  let whole := value / intervalScale
  if whole = 0 then 1 - (leadingZeros value 400 0 : Int) else digitCount whole

/-- The decimal with so many digits that is nearest to a value and reads back as it. The decimal is the
answer times ten to the power of `pointPlace - count`. -/
def nearestOnGrid (range : Interval) (place : Int) (count : Nat) : Option Nat :=
  let up := tenTo ((count : Int) - place).toNat
  let unit := intervalScale * tenTo (place - count).toNat
  let value := range.value * up
  let inside (candidate : Nat) : Bool :=
    let point := candidate * unit
    if range.closed then decide (range.low * up ≤ point ∧ point ≤ range.high * up)
    else decide (range.low * up < point ∧ point < range.high * up)
  let down := value / unit
  match inside down, inside (down + 1) with
  | true, true => if 2 * (value % unit) < unit then some down else some (down + 1)
  | true, false => some down
  | false, true => some (down + 1)
  | false, false => none

/-- The first grid with a decimal that reads back, beginning with `count` digits: its digits and its
power of ten. -/
def shortestFrom (range : Interval) (place : Int) : Nat → Nat → Nat × Int
  | 0, _ => (0, 0)
  | rounds + 1, count =>
    match nearestOnGrid range place count with
    | some digits => (digits, place - count)
    | none => shortestFrom range place rounds (count + 1)

def dropZeros : Nat → Nat × Int → Nat × Int
  | 0, decimal => decimal
  | rounds + 1, (digits, exponent) =>
    if digits ≠ 0 ∧ digits % 10 = 0 then dropZeros rounds (digits / 10, exponent + 1)
    else (digits, exponent)

/-- The fewest digits that read back as a positive double, and their power of ten. -/
def shortest (significand unit : Nat) : Nat × Int :=
  let range := interval significand unit
  dropZeros 20 (shortestFrom range (pointPlace range.value) 20 1)

/-- A decimal written without an exponent. -/
def positional (digits : Nat) (exponent : Int) : Text :=
  let written := Text.ofNat digits
  if 0 ≤ exponent then written ++ List.replicate exponent.toNat '0'
  else
    let places := (-exponent).toNat
    let padded := List.replicate (places + 1 - written.length) '0' ++ written
    padded.take (padded.length - places) ++ '.' :: padded.drop (padded.length - places)

def toText : Double → Text
  | nan => "NaN".toList
  | infinite negative => (if negative then ['-'] else []) ++ "inf".toList
  | finite negative significand unit =>
    (if negative then ['-'] else []) ++
      if significand = 0 then ['0']
      else
        let (digits, exponent) := shortest significand unit
        positional digits exponent

end Sitewright.Double
