import CrossReference.Decimal.Shortest

set_option autoImplicit false

/-! # Written reals

Messages show a real by its shortest digits. Numbers of moderate size are written with a point and
at least one digit on either side of it; very small and very large ones with one digit before the
point and a power of ten. -/

namespace CrossReference.Decimal

/-- Which numbers are written without a power of ten: those `0.d₁d₂… * 10 ^ e` with `e` in this
    range. -/
structure Style where
  leastPlain : Int
  mostPlain : Int

/-- From a ten-thousandth up to sixteen digits before the point. -/
def messageStyle : Style := ⟨-3, 16⟩

/-- Digits with a point in them, after the first `exponent` digits. -/
def positional (digits : List Char) (exponent : Int) : List Char :=
  if exponent ≤ 0 then
    ['0', '.'] ++ List.replicate (-exponent).toNat '0' ++ digits
  else
    let before := exponent.toNat
    if digits.length ≤ before then
      digits ++ List.replicate (before - digits.length) '0' ++ ['.', '0']
    else digits.take before ++ ['.'] ++ digits.drop before

/-- Digits with one of them before the point, and the power of ten. -/
def scientific (digits : List Char) (exponent : Int) : List Char :=
  let fraction := digits.drop 1
  digits.take 1 ++ (if fraction.isEmpty then [] else '.' :: fraction) ++ ['e'] ++
    (toString (exponent - 1)).toList

/-- The text of a double. -/
def write (style : Style) (x : Binary64) : String :=
  let body : List Char :=
    if Binary64.infinityBits < x.magnitude then ['N', 'a', 'N']
    else if x.magnitude = Binary64.infinityBits then ['i', 'n', 'f']
    else if x.magnitude = 0 then ['0', '.', '0']
    else
      let (digits, exponent) := shortest x
      if style.leastPlain ≤ exponent && exponent ≤ style.mostPlain then positional digits exponent
      else scientific digits exponent
  String.ofList (if x.isNegative then '-' :: body else body)

end CrossReference.Decimal
