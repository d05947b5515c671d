import CrossReference.Section.Line
import CrossReference.Section.Stream

set_option autoImplicit false

/-! # Reading the table form

Behind the keyword `xref` come subsections, each a header line with as many record lines as it
announces, and behind them the trailer. Lines that make no sense are skipped with a complaint. What
was read before a fault is kept, so the reader carries it along: a `Draft` is the place in the
document, the entries so far and the complaints so far.

The count of a header is not trusted. A subsection also ends at the first line that does not begin
with a digit, at the latest at the end of the document, so no more rounds begin than there are bytes
left, and one. -/

namespace CrossReference.Section

/-! ## Drafts -/

/-- A table while it is being read: the place, the entries of its records in order, and the
    complaints. -/
structure Draft where
  cursor : Cursor
  records : List (Key × Entry) := []
  notes : List Diagnostic := []

/-- The table of a draft: the first record for a key counts. -/
def Draft.table (d : Draft) : Table := .ofList d.records

/-- A computation that reads on in a table. -/
abbrev DraftReader := EStateM Error Draft

/-- Reads on with a reader of tokens or objects. -/
def reading {α : Type} (r : Reader α) : DraftReader α := fun d =>
  match r d.cursor with
  | .ok a c => .ok a { d with cursor := c }
  | .error e c => .error e { d with cursor := c }

/-- Moves on in the document. -/
def move (f : Cursor → Cursor) : DraftReader Unit := modify fun d => { d with cursor := f d.cursor }

/-- Adds a complaint about an offset. -/
def complain (offset : Nat) (message : String) : DraftReader Unit :=
  modify fun d => { d with notes := d.notes ++ [warning offset message] }

/-- Adds the entry of a record. -/
def addEntry (k : Key) (e : Entry) : DraftReader Unit :=
  modify fun d => { d with records := d.records ++ [(k, e)] }

/-- Passes over white space and answers with the place behind it. -/
def skipToText : DraftReader Cursor := do
  move Cursor.skipWhite
  return (← get).cursor

/-! ## Subsections -/

/-- Reads the record line for an object number. -/
def readRecord (pedantic : Bool) (number : Nat) (c : Cursor) : DraftReader Unit := do
  move Cursor.skipLine
  if Decimal.maxWord64 < number then throw .unusableTable
  match recordLine? pedantic c.line with
  | some (generation, entry) => addEntry ⟨number, generation⟩ entry
  | none =>
    complain c.position s!"Skipping malformed entry for object {number}: {showLine c.line}"

/-- Reads the records that a subsection still has, behind `done` others. -/
def readRecords (pedantic : Bool) (start count done : Nat) : (left : Nat) → DraftReader Unit
  | 0 => return ()
  | left + 1 => do
    let c ← skipToText
    if c.atDigit then
      readRecord pedantic (start + done) c
      readRecords pedantic start count (done + 1) left
    else complain c.position s!"Subsection {start} {count} ends after {done} entries"

/-- Reads subsections up to a line that does not begin with a digit, in at most so many rounds. -/
def readSubsections (pedantic : Bool) : (rounds : Nat) → DraftReader Unit
  | 0 => return ()
  | rounds + 1 => do
    let c ← skipToText
    if c.atDigit then
      move Cursor.skipLine
      match headerLine? c.line with
      | some (start, count) => readRecords pedantic start count 0 count
      | none =>
        complain c.position s!"Skipping unexpected line in xref section: {showLine c.line}"
      readSubsections pedantic rounds

/-! ## The trailer -/

/-- Skips lines up to one that begins like the keyword `trailer`, in at most so many rounds, and
    answers with its offset. -/
def findTrailer : (rounds : Nat) → DraftReader Nat
  | 0 => throw .noTrailer
  | rounds + 1 => do
    let c ← skipToText
    match c.peek? with
    | none => throw .noTrailer
    | some 0x74 => return c.position
    | some _ =>
      move Cursor.skipLine
      complain c.position s!"Skipping stray line before trailer: {showLine c.line}"
      findTrailer rounds

/-- Runs a loop that takes a byte in every round with as many rounds as there are bytes. -/
def draftRounds {α : Type} (loop : Nat → DraftReader α) : DraftReader α := fun d =>
  loop d.cursor.rest.length d

/-- Reads the trailer, and answers with its offset and its dictionary. -/
def readTrailer (tolerance : Tolerance) : DraftReader (Nat × Dict Object) := do
  let offset ← draftRounds findTrailer
  reading (Reader.expect Reserved.trailer.spelling)
  let entries ← reading (Object.readDict tolerance)
  return (offset, entries)

/-- Reads the table at an offset, and answers with the offset and the dictionary of its trailer. -/
def readTable (tolerance : Tolerance) (file : Bytes) (offset : Nat) :
    EStateM.Result Error Draft (Nat × Dict Object) :=
  let body : DraftReader (Nat × Dict Object) := do
    reading (Reader.expect Reserved.xref.spelling)
    draftRounds (readSubsections tolerance.pedantic)
    readTrailer tolerance
  body { cursor := ⟨offset, file.drop offset⟩ }

end CrossReference.Section
