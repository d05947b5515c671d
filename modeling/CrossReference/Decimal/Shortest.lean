import CrossReference.Decimal.Binary64

set_option autoImplicit false

/-! # The shortest decimal of a double

A double stands for every real number that rounds to it, an interval around its value. It is written
with the fewest digits that name a point of this interval, and with the point nearest to the value
among those.

For one digit, then two, and so on, the two points of the decimal grid next to the value are tested:
if any point of the grid lies in the interval, one of these two does. Seventeen digits always reach
it. All arithmetic is exact, on quarters of a unit so that the ends of the interval are whole. -/

namespace CrossReference.Decimal

open Binary64

/-- A decimal `0.d₁d₂…dₙ * 10 ^ exponent`, where `digits` is the number written `d₁d₂…dₙ`. -/
structure Scientific where
  digits : Nat
  exponent : Int
deriving DecidableEq, Repr

/-- How many decimal digits a number has. -/
def digitCount (n : Nat) : Nat := (Nat.toDigits 10 n).length

/-- The exponent `e` with `10 ^ (e - 1) ≤ x < 10 ^ e`, for a positive magnitude of `units`. The
    least double is above `10 ^ -324`. -/
def exponentOf (units : Nat) : Int :=
  if unitsPerOne ≤ units then digitCount (units / unitsPerOne)
  else
    match (List.range 324).find? fun zeros => unitsPerOne ≤ units * Nat.pow 10 (zeros + 1) with
    | some zeros => -(zeros : Int)
    | none => -324

/-- The interval of a double, in quarters of a unit: how far it reaches below and above the value,
    and whether its ends belong to it. Below a power of two doubles lie twice as close. -/
structure Reach where
  below : Nat
  above : Nat
  closed : Bool

/-- The interval of reals that round to a double. -/
def reach (x : Binary64) : Reach :=
  let half := 2 <<< x.power
  let narrow := x.mantissa = leadingBit && 0 < x.power
  ⟨if narrow then half / 2 else half, half, x.mantissa % 2 = 0⟩

/-- The point of the grid of `count` digits that names the double best, if one lies in its interval.
    Of two points equally near, the upper one is taken. -/
def gridPoint? (x : Binary64) (exponent : Int) (count : Nat) : Option Nat :=
  let places := (count : Int) - exponent
  let up := Nat.pow 10 places.toNat
  let down := Nat.pow 10 (-places).toNat
  let value := 4 * (x.mantissa <<< x.power) * up
  let step := 4 * unitsPerOne * down
  let r := reach x
  let lower := value / step
  let gapBelow := value - lower * step
  let gapAbove := (lower + 1) * step - value
  let hasLower := if r.closed then gapBelow ≤ r.below * up else gapBelow < r.below * up
  let hasUpper := if r.closed then gapAbove ≤ r.above * up else gapAbove < r.above * up
  if hasLower && (!hasUpper || gapBelow < gapAbove) then some lower
  else if hasUpper then some (lower + 1)
  else none

/-- The digits of a number without the zeros at its end. -/
def stripZeros (digits : List Char) : List Char := (digits.reverse.dropWhile (· = '0')).reverse

/-- The fewest significant digits that name a positive finite double, and the exponent that goes
    with them: the value is `0.d₁d₂…dₙ * 10 ^ exponent`. -/
def shortest (x : Binary64) : List Char × Int :=
  let exponent := exponentOf (x.mantissa <<< x.power)
  match (List.range 17).findSome? fun i => (gridPoint? x exponent (i + 1)).map (i + 1, ·) with
  | some (count, point) =>
    let digits := Nat.toDigits 10 point
    -- a point that rounds up to the next power of ten has one digit more than its grid
    (stripZeros digits, exponent + digits.length - count)
  | none => (Nat.toDigits 10 x.mantissa, exponent)

end CrossReference.Decimal
