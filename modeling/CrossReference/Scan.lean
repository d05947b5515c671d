import CrossReference.Cursor
import CrossReference.Object

set_option autoImplicit false

/-! # The file scan

The scan ignores every offset that a document records. It goes through the document line by line and
notes the lines that begin, behind blanks, with an object header or with the keyword `xref`. -/

namespace CrossReference

/-- What a scan found, in the order of the document. -/
structure ScanIndex where
  /-- The object headers: keys, and offsets of their first digits. -/
  objects : List (Key × Nat) := []
  /-- The offsets of the keyword `xref`. -/
  tables : List Nat := []
deriving DecidableEq, Repr

namespace ScanIndex

/-! ## One line -/

/-- The number that a run of one to twenty digits at the front of a text writes, if 64 bits hold it,
    and what stands behind the run. -/
def leadingNumber? (text : Bytes) : Option (Nat × Bytes) :=
  let digits := text.takeWhile Byte.isDigit
  let value := Decimal.ofDigits digits
  if digits.isEmpty || 20 < digits.length || Decimal.maxWord64 < value then none
  else some (value, text.drop digits.length)

/-- What follows a word at the front of a text, if the word ends there. -/
def afterWord? (word text : Bytes) : Option Bytes :=
  if word.isPrefixOf text then
    let rest := text.drop word.length
    if Bytes.startsBoundary rest then some rest else none
  else none

/-- Whether a text begins with the keyword `xref`. -/
def beginsTable (text : Bytes) : Bool := (afterWord? Reserved.xref.spelling text).isSome

/-- The key in the object header at the front of a text. -/
def leadingHeader? (text : Bytes) : Option Key := do
  let (number, rest) ← leadingNumber? text
  let (generation, rest) ←
    if rest.head?.any Byte.isWhite then leadingNumber? (rest.dropWhile Byte.isWhite) else none
  let _ ← afterWord? Reserved.obj.spelling (rest.dropWhile Byte.isWhite)
  if generation ≤ Decimal.maxWord32 then some ⟨number, generation⟩ else none

/-- Adds what a line at an offset holds. Both lists have the last find first. -/
def addLine (index : ScanIndex) (offset : Nat) (line : Bytes) : ScanIndex :=
  let blanks := (line.takeWhile Byte.isBlank).length
  let text := line.drop blanks
  if beginsTable text then { index with tables := (offset + blanks) :: index.tables }
  else
    match leadingHeader? text with
    | some k => { index with objects := (k, offset + blanks) :: index.objects }
    | none => index

/-! ## All lines -/

/-- Adds what the lines from a place on hold, in at most so many rounds. -/
def addLines (index : ScanIndex) (c : Cursor) : (rounds : Nat) → ScanIndex
  | 0 => index
  | rounds + 1 =>
    if c.isEnd then index else addLines (index.addLine c.position c.line) c.skipLine rounds

/-- Scans a document. -/
def scan (file : Bytes) : ScanIndex :=
  let found := addLines {} (.start file) file.length
  { objects := found.objects.reverse, tables := found.tables.reverse }

/-! ## Questions -/

/-- Whether no object was found. -/
def isEmpty (index : ScanIndex) : Bool := index.objects.isEmpty

/-- The offset of the last header with a key. -/
def lastOffset? (index : ScanIndex) (k : Key) : Option Nat :=
  (index.objects.reverse.find? (·.1 = k)).map (·.2)

/-- Of headers in order, those that no later one repeats. -/
def withoutRepeats : List (Key × Nat) → List (Key × Nat)
  | [] => []
  | e :: rest => if rest.any (·.1 = e.1) then withoutRepeats rest else e :: withoutRepeats rest

/-- Each key with the offset of its last header, in the order of these offsets. -/
def lastOffsets (index : ScanIndex) : List (Key × Nat) := withoutRepeats index.objects

end ScanIndex

end CrossReference
