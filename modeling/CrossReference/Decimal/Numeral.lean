import CrossReference.Byte

set_option autoImplicit false

/-! # Decimal numerals

Numbers in a document are runs of decimal digits. They are read without a bound on their size; what
a place in the syntax can hold is tested by the reader of that place. -/

namespace CrossReference.Decimal

/-- The value of a decimal digit. -/
def digitValue (b : UInt8) : Nat := b.toNat - 0x30

/-- The number written by a run of digits; no digits at all stand for zero. -/
def ofDigits (digits : Bytes) : Nat := digits.foldl (fun n b => n * 10 + digitValue b) 0

/-- How many values a word of 64 bits has. -/
def word64Count : Nat := 0x10000000000000000

/-- The greatest number of an unsigned word of 64 bits. -/
def maxWord64 : Nat := 0xFFFFFFFFFFFFFFFF

/-- The greatest number of an unsigned word of 32 bits. -/
def maxWord32 : Nat := 0xFFFFFFFF

/-- The greatest number of a signed word of 64 bits. -/
def maxSigned64 : Nat := 0x7FFFFFFFFFFFFFFF

/-- The greatest number of a signed word of 32 bits. -/
def maxSigned32 : Nat := 0x7FFFFFFF

/-- The integers of the document syntax are those of a signed word of 64 bits. -/
def fitsSigned64 (value : Int) : Bool :=
  -(maxSigned64 : Int) - 1 ≤ value && value ≤ (maxSigned64 : Int)

/-- The integer whose 64-bit pattern in two's complement is that of an unsigned number. -/
def toSigned64 (value : Nat) : Int := Int.bmod value word64Count

/-- Reads a text of digits only, at least one of them, as a number up to `max`. -/
def number? (max : Nat) (text : List Char) : Option Nat :=
  if text.isEmpty || !text.all Char.isDigit then none
  else
    let n := ofDigits (text.map Char.toUInt8)
    if n ≤ max then some n else none

end CrossReference.Decimal
