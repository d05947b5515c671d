set_option autoImplicit false

/-! # Bytes and their classes

A PDF document is a plain list of bytes, and so is every part of one: reading is recursion on that
list, and what a reader leaves unread is a suffix of what it was given. The syntax splits the bytes
into three classes: white space, delimiters, and the regular bytes that names, numbers and keywords
are made of. The ends of lines are a class of their own inside white space. -/

namespace CrossReference

/-- A document, a part of one, or decoded stream data. -/
abbrev Bytes := List UInt8

/-- The bytes of a text of characters below U+0100, one byte for each. -/
def ascii (text : String) : Bytes := text.toList.map Char.toUInt8

/-- The character with a byte's number. -/
def latin1Char (b : UInt8) : Char := Char.ofNat b.toNat

/-- Bytes as a text, one character for each byte. -/
def latin1 (bytes : Bytes) : String := String.ofList (bytes.map latin1Char)

namespace Byte

/-- White space: NUL, tab, line feed, form feed, carriage return and space. -/
def isWhite (b : UInt8) : Bool :=
  b = 0x00 || b = 0x09 || b = 0x0A || b = 0x0C || b = 0x0D || b = 0x20

/-- Delimiters: `( ) < > [ ] { } / %`. -/
def isDelimiter (b : UInt8) : Bool :=
  b = 0x28 || b = 0x29 || b = 0x3C || b = 0x3E || b = 0x5B || b = 0x5D || b = 0x7B || b = 0x7D ||
    b = 0x2F || b = 0x25

/-- Regular bytes are those that neither separate nor delimit. -/
def isRegular (b : UInt8) : Bool := !isWhite b && !isDelimiter b

/-- A line feed or a carriage return. -/
def isLineEnd (b : UInt8) : Bool := b = 0x0A || b = 0x0D

/-- The white space that may stand before a line's first token: all but the ends of lines. -/
def isBlank (b : UInt8) : Bool := isWhite b && !isLineEnd b

/-- A decimal digit. -/
def isDigit (b : UInt8) : Bool := 0x30 ≤ b && b ≤ 0x39

/-- A digit of an octal escape. -/
def isOctal (b : UInt8) : Bool := 0x30 ≤ b && b ≤ 0x37

/-- The value of a hexadecimal digit of either case. -/
def hexValue? (b : UInt8) : Option UInt8 :=
  if 0x30 ≤ b && b ≤ 0x39 then some (b - 0x30)
  else if 0x41 ≤ b && b ≤ 0x46 then some (b - 0x41 + 10)
  else if 0x61 ≤ b && b ≤ 0x66 then some (b - 0x61 + 10)
  else none

end Byte

namespace Bytes

/-- Pairs of hexadecimal digits as bytes; a last digit without a partner stands before a zero. -/
def ofHexDigits : List UInt8 → Bytes
  | [] => []
  | [high] => [high * 16]
  | high :: low :: rest => (high * 16 + low) :: ofHexDigits rest

/-- Whether a token ends here: at the end of the bytes, or before white space or a delimiter. -/
def startsBoundary : Bytes → Bool
  | [] => true
  | b :: _ => !Byte.isRegular b

end Bytes

end CrossReference
