set_option autoImplicit false

/-! # Binary floating point

Real numbers of the document syntax are kept as IEEE 754 doubles, and those as their bit patterns,
so equality of values is equality of patterns and tells `-0.0` from `0.0`.

Every finite magnitude is a whole number of units `2 ^ -1074`, namely `mantissa * 2 ^ power` of
them. Read as a number, the pattern below the sign is `power * 2 ^ 52 + mantissa`, for normal and
subnormal values alike. So a magnitude is rounded by choosing the power that leaves 53 bits,
rounding the quotient to the nearest even, and adding; a carry out of the mantissa then ends up in
the exponent, where it belongs. -/

namespace CrossReference

/-- A double, as its bit pattern. -/
structure Binary64 where
  bits : UInt64
deriving DecidableEq, Repr

namespace Binary64

/-- The number of units `2 ^ -1074` in one. -/
def unitsPerOne : Nat := 1 <<< 1074

/-- The least mantissa of a normal value, `2 ^ 52`; patterns count exponents in steps of it. -/
def leadingBit : Nat := 0x10000000000000

/-- The pattern of the sign alone. -/
def signBit : Nat := 0x8000000000000000

/-- The pattern of positive infinity. -/
def infinityBits : Nat := 0x7FF0000000000000

/-- The quotient of two numbers, rounded to the nearest whole number and from the middle to the even
    one of its neighbours. -/
def roundQuotient (numerator denominator : Nat) : Nat :=
  let q := numerator / denominator
  let twice := 2 * (numerator % denominator)
  if twice > denominator || (twice = denominator && q % 2 = 1) then q + 1 else q

/-- The pattern, without the sign, of the double nearest to a quotient. -/
def magnitudeBits (numerator denominator : Nat) : Nat :=
  let units := numerator * unitsPerOne
  let whole := units / denominator
  let power := if whole < 2 * leadingBit then 0 else whole.log2 - 52
  let bits := power * leadingBit + roundQuotient units (denominator <<< power)
  if infinityBits ≤ bits then infinityBits else bits

/-- The double nearest to `digits / 10 ^ places`, with a sign. -/
def ofDecimal (negative : Bool) (digits places : Nat) : Binary64 :=
  let bits := magnitudeBits digits (Nat.pow 10 places)
  ⟨UInt64.ofNat (if negative then signBit + bits else bits)⟩

/-- Whether the sign is set. -/
def isNegative (x : Binary64) : Bool := signBit ≤ x.bits.toNat

/-- The pattern without the sign. -/
def magnitude (x : Binary64) : Nat := x.bits.toNat % signBit

/-- The exponent field of the pattern. -/
def exponentField (x : Binary64) : Nat := x.magnitude / leadingBit

/-- The power of two in `mantissa * 2 ^ power` units. -/
def power (x : Binary64) : Nat := x.exponentField - 1

/-- The mantissa of `mantissa * 2 ^ power` units. -/
def mantissa (x : Binary64) : Nat := x.magnitude - x.power * leadingBit

end Binary64

end CrossReference
