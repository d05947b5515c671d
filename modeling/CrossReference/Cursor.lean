import CrossReference.Bytes.Line
import CrossReference.Bytes.Search
import CrossReference.Token.Lexer

set_option autoImplicit false

/-! # Cursors

A cursor is a place in a document: an offset, and the bytes from there on. Looking ahead needs no
way back, since the cursor from before is still there. A `Reader` goes from a cursor to a value or
an error and, in both cases, to the cursor where it stopped. -/

namespace CrossReference

/-- A place in a document. -/
structure Cursor where
  position : Nat
  rest : Bytes
deriving DecidableEq, Repr

/-- A computation that reads on from a cursor. -/
abbrev Reader := EStateM Error Cursor

namespace Cursor

/-! ## Places -/

/-- The start of a document. -/
def start (file : Bytes) : Cursor := ⟨0, file⟩

/-- The place at an offset; its end is a place of the document too. -/
def seek (file : Bytes) (offset : Nat) : Except Error Cursor :=
  if offset ≤ file.length then .ok ⟨offset, file.drop offset⟩
  else .error (.outside offset file.length)

/-- The place some bytes further on. -/
def advance (c : Cursor) (n : Nat) : Cursor := ⟨c.position + n, c.rest.drop n⟩

/-- Whether no byte is left. -/
def isEnd (c : Cursor) : Bool := c.rest.isEmpty

/-- The next byte. -/
def peek? (c : Cursor) : Option UInt8 := c.rest.head?

/-- Whether the next bytes are those of a pattern. -/
def startsWith (c : Cursor) (pattern : Bytes) : Bool := pattern.isPrefixOf c.rest

/-- Whether the next byte is a decimal digit. -/
def atDigit (c : Cursor) : Bool := c.peek?.any Byte.isDigit

/-! ## Moves -/

/-- How many bytes of white space come next. -/
def whiteLength (c : Cursor) : Nat := (c.rest.takeWhile Byte.isWhite).length

/-- The place behind the white space that comes next. -/
def skipWhite (c : Cursor) : Cursor := c.advance c.whiteLength

/-- The place behind the white space and the comments that come next. -/
def skipComments (c : Cursor) : Cursor := c.advance (Token.skipLength false 0 c.rest)

/-- The place behind the current line and its end. -/
def skipLine (c : Cursor) : Cursor := c.advance (Bytes.lineLength c.rest)

/-- The bytes up to the end of the current line. -/
def line (c : Cursor) : Bytes := Bytes.line c.rest

/-- The bytes at an offset, as many as asked for or as there are, and the place behind them. An
    offset beyond the end counts as the end. -/
def readAt (file : Bytes) (offset len : Nat) : Bytes × Cursor :=
  let offset := min offset file.length
  let bytes := (file.drop offset).take len
  (bytes, ⟨offset + bytes.length, file.drop (offset + bytes.length)⟩)

/-- The offset of the first occurrence of a pattern within the next `limit` bytes. -/
def find? (c : Cursor) (pattern : Bytes) (limit : Nat) : Option Nat :=
  Bytes.firstInPieces pattern c.position (c.rest.take limit)

end Cursor

namespace Reader

/-- Fails here, with a fault in the text. -/
def fail {α : Type} (fault : SyntaxFault) : Reader α := fun c =>
  .error (.malformed c.position fault) c

/-- Reads so many bytes. If there are fewer, nothing is read. -/
def bytes (len : Nat) : Reader Bytes := fun c =>
  let taken := c.rest.take len
  if taken.length < len then fail (.shortage len taken.length) c
  else .ok taken (c.advance len)

/-- The value of a reader that is not to fail, with the place behind it. -/
def run? {α : Type} (r : Reader α) (c : Cursor) : Option (α × Cursor) :=
  match r c with
  | .ok a c => some (a, c)
  | .error _ _ => none

end Reader

end CrossReference
