import CrossReference.Scan
import CrossReference.Diagnostic
import CrossReference.Options
import CrossReference.Table
import CrossReference.Token.Reader

set_option autoImplicit false

/-! # The sweep over offsets

A table that came from a document may be wrong about it. The sweep goes through the objects that
should stand in the document itself and compares each offset with the object header there. An entry
that fails is moved to the last header with its key, if repairs are wanted and there is one; else it
is taken out of the table and put aside. -/

namespace CrossReference

/-- What a sweep left in a table, what it put aside, and its complaints. -/
structure Sweep where
  table : Table
  excluded : List (Key × Entry) := []
  notes : List Diagnostic := []

namespace Sweep

/-- The key in the object header at an offset. -/
def headerAt? (file : Bytes) (offset : Nat) : Option Key :=
  let c : Cursor := ⟨offset, file.drop offset⟩
  if c.isEnd then none else (Reader.header.run? c).map (·.1)

/-- How a message names what stands at an offset. -/
def showFound : Option Key → String
  | some k => k.text
  | none => "no object header"

/-- Adds a complaint about the entry for an offset. -/
def complain (s : Sweep) (offset : Nat) (message : String) : Sweep :=
  { s with notes := s.notes ++ [⟨.offsetMismatch, some offset, message⟩] }

/-- Treats an entry for an offset at which something else was found. -/
def fail (s : Sweep) (actual : Option Nat) (found : Option Key) (k : Key) (offset : Nat) : Sweep :=
  match actual with
  | some actual =>
    { s with table := s.table.relocate k actual }.complain offset
      s!"Object {k.text} is not at {offset}, using {actual}"
  | none =>
    { s with
      table := s.table.remove k
      excluded := s.excluded ++ [(k, Entry.direct offset)] }.complain offset
      s!"Excluding object {k.text}, offset holds {showFound found}"

/-- Compares an entry with the document. The last header of each key can be asked for. -/
def check (file : Bytes) (lastOffset? : Key → Option Nat) (s : Sweep) (entry : Key × Nat) : Sweep :=
  let found := headerAt? file entry.2
  if found = some entry.1 then s else s.fail (lastOffset? entry.1) found entry.1 entry.2

/-- Compares all entries of a table with the document, in the order of their keys. -/
def run (repair : Bool) (file : Bytes) (t : Table) : Sweep :=
  let index : ScanIndex := if repair then .scan file else {}
  t.directOffsets.foldl (check file index.lastOffset?) { table := t }

end Sweep

end CrossReference
