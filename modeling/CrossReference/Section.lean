import CrossReference.Object.Reader
import CrossReference.Diagnostic
import CrossReference.Table
import CrossReference.Trailer

set_option autoImplicit false

/-! # Cross-reference sections

A document has one or more cross-reference sections, each in one of two forms: a table of text lines
with a trailer behind it, or a stream object whose dictionary is the trailer. `Section.probe` tells
from a quick look which form stands at an offset; the readers of the two forms do the rest. What the
sections read so far have given is a `Harvest`. -/

namespace CrossReference

/-- The two forms of a section. -/
inductive SectionKind where
  /-- Lines of text and a trailer. -/
  | table
  /-- A stream object. -/
  | stream
deriving DecidableEq, Repr

/-- A section that was read. -/
structure Revision where
  offset : Nat
  kind : SectionKind
  /-- Where the trailer stands; for a stream, its own offset. -/
  trailerOffset : Nat
deriving DecidableEq, Repr

/-- What sections have given: entries, trailers, and complaints, oldest first. -/
structure Harvest where
  table : Table := .empty
  trailer : Trailer := .empty
  notes : List Diagnostic := []

namespace Section

/-- Whether a dictionary is that of a cross-reference stream. Without a type the field widths give
    it away, to a reader that is not pedantic. -/
def looksLikeStream (tolerance : Tolerance) (entries : Dict Object) : Bool :=
  entries.type? = some (Name.ofString "XRef") || (!tolerance.pedantic && entries.contains "W")

/-- Reads the start of a stream object up to its data, and answers whether it is a cross-reference
    stream. -/
def streamStart (tolerance : Tolerance) : Reader Bool := do
  let _ ← Reader.header
  let entries ← Object.readDict tolerance
  if looksLikeStream tolerance entries then
    return (← Reader.token) = .reserved .stream
  else return false

/-- The form of the section that stands at an offset, if one does. -/
def probe (tolerance : Tolerance) (file : Bytes) (offset : Nat) : Option SectionKind :=
  let c : Cursor := ⟨offset, file.drop offset⟩
  if c.isEnd then none
  else
    let c := c.skipWhite
    if c.startsWith Reserved.xref.spelling then some .table
    else
      match streamStart tolerance c with
      | .ok true _ => some .stream
      | _ => none

end Section

end CrossReference
