import CrossReference.Object

set_option autoImplicit false

/-! # Filters

The encodings that stream data may have, and the names that documents give them: a long one, and for
most a short one. -/

namespace CrossReference

/-- A stream filter. -/
inductive Filter where
  | asciiHex
  | ascii85
  | lzw
  | flate
  | runLength
  | crypt
deriving DecidableEq, Repr

namespace Filter

/-- All filters. -/
def all : List Filter := [asciiHex, ascii85, lzw, flate, runLength, crypt]

/-- The long name of a filter. -/
def longName : Filter → String
  | asciiHex => "ASCIIHexDecode"
  | ascii85 => "ASCII85Decode"
  | lzw => "LZWDecode"
  | flate => "FlateDecode"
  | runLength => "RunLengthDecode"
  | crypt => "Crypt"

/-- The short name of a filter, if it has one. -/
def shortName? : Filter → Option String
  | asciiHex => some "AHx"
  | ascii85 => some "A85"
  | lzw => some "LZW"
  | flate => some "Fl"
  | runLength => some "RL"
  | crypt => none

/-- Whether a name is one of a filter's names. -/
def hasName (f : Filter) (n : Name) : Bool :=
  n = Name.ofString f.longName || f.shortName?.any (n = Name.ofString ·)

/-- The filter with a name. -/
def ofName? (n : Name) : Option Filter := all.find? (·.hasName n)

end Filter

end CrossReference
