import CrossReference.Filter.Pipeline
import CrossReference.Section
import CrossReference.Section.Layout

set_option autoImplicit false

/-! # Reading cross-reference streams

A cross-reference stream is read whole or not at all: only when every record is decoded do its
entries and its dictionary count. Complaints count in any case. -/

namespace CrossReference

namespace Section

/-- What a cross-reference stream gives: its dictionary, which is its trailer, and its entries. -/
structure StreamSection where
  entries : Dict Object
  records : List (Key × Entry)

/-- The stream that is defined at an offset. -/
def streamAt (tolerance : Tolerance) (file : Bytes) (offset : Nat) :
    Except Error (Key × Dict Object × Bytes) := do
  let c ← Cursor.seek file offset
  match Object.readDefinition tolerance c with
  | .error e _ => .error e
  | .ok (key, .stream entries data) _ => return (key, entries, data)
  | .ok (key, other) _ => .error (.badStream (.notStream key offset other))

/-- A complaint about the form of the section at an offset. -/
def warning (offset : Nat) (message : String) : Diagnostic :=
  ⟨.structuralWarning, some offset, message⟩

/-- The complaint about the type of a stream, if it is read in spite of it. -/
def acceptType (tolerance : Tolerance) (key : Key) (offset : Nat) (entries : Dict Object) :
    Except Error (List Diagnostic) :=
  if entries.type? = some (Name.ofString "XRef") then .ok []
  else if looksLikeStream tolerance entries then
    .ok [warning offset s!"Stream {key.text} has /W but no /Type /XRef"]
  else .error (.badStream (.notXrefStream key offset entries.type?))

/-- The records in the data of a stream, and how many bytes stand behind them. -/
def recordsIn (entries : Dict Object) (data : Bytes) : Except Error (List (Key × Entry) × Nat) := do
  let layout ← Layout.ofDict entries
  let decoded ← Filter.decodeStream entries data
  let records ← layout.decodeEntries decoded
  let expected ← layout.expectedLength
  return (records, decoded.length - expected)

/-- Reads the cross-reference stream at an offset, with the complaints that it gives rise to. -/
def readStream (tolerance : Tolerance) (file : Bytes) (offset : Nat) :
    Except Error StreamSection × List Diagnostic :=
  match streamAt tolerance file offset with
  | .error e => (.error e, [])
  | .ok (key, entries, data) =>
    match acceptType tolerance key offset entries with
    | .error e => (.error e, [])
    | .ok notes =>
      match recordsIn entries data with
      | .error e => (.error e, notes)
      | .ok (records, surplus) =>
        let more := if surplus = 0 then []
          else [warning offset s!"Xref stream has {surplus} bytes after its last record"]
        (.ok { entries, records }, notes ++ more)

end Section

namespace Harvest

/-- Reads the cross-reference stream at an offset into a harvest, and answers with its dictionary.
    The first record for a key counts. -/
def addStream (h : Harvest) (tolerance : Tolerance) (file : Bytes) (offset : Nat) :
    Except Error (Dict Object) × Harvest :=
  match Section.readStream tolerance file offset with
  | (.error e, notes) => (.error e, { h with notes := h.notes ++ notes })
  | (.ok s, notes) =>
    (.ok s.entries,
      { table := h.table.merge (.ofList s.records)
        trailer := h.trailer.merge s.entries offset
        notes := h.notes ++ notes })

end Harvest

end CrossReference
