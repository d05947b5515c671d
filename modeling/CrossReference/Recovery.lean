import CrossReference.Diagnostic
import CrossReference.ObjectStream
import CrossReference.Scan
import CrossReference.Table
import CrossReference.Trailer

set_option autoImplicit false

/-! # Rebuilding a table

When the sections of a document are of no use, the table is made from the document itself. Every
object header that a scan finds becomes an entry, the last one for its key. Then the objects are
read in the order of the document. A catalog becomes the root, a dictionary with document
information the information dictionary, in each case the last one met; an object stream adds its
members, as far as their keys are not taken. What was found replaces what trailers said. -/

namespace CrossReference

/-- What a rebuild came upon. -/
structure RecoveryStats where
  /-- Object headers, repeated ones counted too. -/
  objectsFound : Nat := 0
  /-- Entries of the new table. -/
  entriesReconstructed : Nat := 0
  /-- Entries for members of object streams. -/
  compressedEntries : Nat := 0
  /-- Objects that could not be read. -/
  objectsSkipped : Nat := 0
  root : Option Key := none
  info : Option Key := none
deriving DecidableEq, Repr

/-- A rebuild: the table, what it came upon, and its complaints. -/
structure Recovery where
  table : Table := .empty
  stats : RecoveryStats := {}
  notes : List Diagnostic := []

namespace Recovery

/-! ## Finds -/

/-- The names that give away a document information dictionary. -/
def infoNames : List Name :=
  ["Title", "Author", "Subject", "Keywords", "Creator", "Producer", "CreationDate"]

/-- Notes the object with a key if it is a catalog or an information dictionary. -/
def classify (stats : RecoveryStats) (k : Key) (x : Object) : RecoveryStats :=
  match x.dict? with
  | none => stats
  | some entries =>
    if entries.type? = some (Name.ofString "Catalog") then { stats with root := some k }
    else if infoNames.any entries.contains then { stats with info := some k }
    else stats

/-- Adds a complaint about an object, if it stands in the document itself about its offset. -/
def complain (r : Recovery) (offset : Option Nat) (message : String) : Recovery :=
  { r with notes := r.notes ++ [⟨.objectSkipped, offset, message⟩] }

/-- Counts an object that could not be read. -/
def skip (r : Recovery) (offset : Option Nat) (message : String) : Recovery :=
  { r with stats := { r.stats with objectsSkipped := r.stats.objectsSkipped + 1 } }.complain offset
    message

/-! ## Object streams -/

/-- Adds the member at an index of an object stream, unless its key is taken. -/
def addMember (tolerance : Tolerance) (k : Key) (s : ObjectStream) (r : Recovery)
    (member : Nat × Nat) : Recovery :=
  let (number, index) := member
  let key : Key := ⟨number, 0⟩
  -- an index is a word of 32 bits
  if Decimal.maxWord32 < index || r.table.contains key then r
  else
    let stats := { r.stats with compressedEntries := r.stats.compressedEntries + 1 }
    let r := { r with table := r.table.add key (.compressed k.number index), stats }
    match s.object tolerance index with
    | .ok x => { r with stats := classify r.stats key x }
    | .error e =>
      r.skip none s!"Skipped object {key.text} in stream {k.text}: {e.message}"

/-- Adds the members of an object stream. -/
def addMembers (tolerance : Tolerance) (r : Recovery) (k : Key) (entries : Dict Object)
    (data : Bytes) : Recovery :=
  match ObjectStream.ofStream tolerance entries data with
  | .error e => r.complain none s!"Object stream {k.text} is unreadable: {e.message}"
  | .ok s => s.numbers.zipIdx.foldl (addMember tolerance k s) r

/-! ## Objects -/

/-- Looks at an object that was read. -/
def examine (tolerance : Tolerance) (openStreams : Bool) (r : Recovery) (k : Key) (x : Object) :
    Recovery :=
  let r := { r with stats := classify r.stats k x }
  match x with
  | .stream entries data =>
    if openStreams && entries.type? = some (Name.ofString "ObjStm") then
      r.addMembers tolerance k entries data
    else r
  | _ => r

/-- Reads the object with a key at an offset, and looks at it. -/
def visit (tolerance : Tolerance) (openStreams : Bool) (file : Bytes) (r : Recovery)
    (located : Key × Nat) : Recovery :=
  let (k, offset) := located
  match Object.readDefinition tolerance ⟨offset, file.drop offset⟩ with
  | .ok (key, x) _ =>
    if key = k then r.examine tolerance openStreams k x
    else r.skip (some offset) s!"Expected object {k.text}, found {key.text}"
  | .error e _ =>
    r.skip (some offset)
      s!"Skipped object {k.text}, either it's corrupt or unreadable: {e.message}"

/-! ## The whole document -/

/-- A trailer with what a rebuild found. -/
def updateTrailer (r : Recovery) (t : Trailer) : Trailer :=
  let t := match r.stats.root with
    | some root => t.set "Root" (.reference root)
    | none => t
  let t := match r.stats.info with
    | some info => t.set "Info" (.reference info)
    | none => t
  t.set "Size" (.integer (min (r.table.highestNumber + 1) Decimal.maxSigned64))

/-- Makes a table from what a scan found, and looks at all objects in it. -/
def survey (options : Options) (file : Bytes) (index : ScanIndex) : Recovery :=
  let located := index.lastOffsets
  let table := Table.ofList (located.map fun e => (e.1, .direct e.2))
  let stats : RecoveryStats := { objectsFound := index.objects.length }
  let r := located.foldl (visit options.toTolerance options.rebuildStreams file) { table, stats }
  let r := { r with stats := { r.stats with entriesReconstructed := r.table.size } }
  let notes := match r.stats.root with
    | some _ => r.notes
    | none => r.notes ++
        [⟨.structuralWarning, none, "Recovery found no /Type /Catalog dictionary"⟩]
  { r with notes }

/-- Rebuilds the table of a document from a scan of it. The state is the trailer, which is rebuilt
    with it. This can only fail for want of objects. -/
def rebuild (options : Options) (file : Bytes) (index : ScanIndex) :
    EStateM Error Trailer Recovery := do
  if index.isEmpty then throw (.nothingFound file.length)
  let r := survey options file index
  modify r.updateTrailer
  return r

/-- Rebuilds the table of a document, and answers with it and with what becomes of a trailer. -/
def run (options : Options) (file : Bytes) (index : ScanIndex) (t : Trailer) :
    Except Error (Recovery × Trailer) :=
  match rebuild options file index t with
  | .ok r t => .ok (r, t)
  | .error e _ => .error e

/-! ## What a rebuild answers -/

variable {options : Options} {file : Bytes} {index : ScanIndex}

/-- A rebuild without objects fails and leaves the trailer alone. -/
theorem rebuild_of_isEmpty (h : index.isEmpty = true) (t : Trailer) :
    rebuild options file index t = .error (.nothingFound file.length) t := by
  unfold rebuild
  rw [if_pos h]
  rfl

/-- A rebuild with objects answers with the survey of them and updates the trailer. -/
theorem rebuild_of_not_isEmpty (h : index.isEmpty = false) (t : Trailer) :
    rebuild options file index t =
      .ok (survey options file index) ((survey options file index).updateTrailer t) := by
  unfold rebuild
  rw [if_neg (by simp [h])]
  rfl

theorem run_eq (options : Options) (file : Bytes) (index : ScanIndex) (t : Trailer) :
    run options file index t =
      if index.isEmpty then .error (.nothingFound file.length)
      else .ok (survey options file index, (survey options file index).updateTrailer t) := by
  unfold run
  cases h : index.isEmpty with
  | true => rw [rebuild_of_isEmpty h, if_pos rfl]
  | false => rw [rebuild_of_not_isEmpty h, if_neg Bool.false_ne_true]

theorem eq_survey_of_run {t : Trailer} {rebuilt : Recovery × Trailer}
    (h : run options file index t = .ok rebuilt) :
    rebuilt = (survey options file index, (survey options file index).updateTrailer t) := by
  rw [run_eq] at h
  split at h
  · cases h
  · exact (Except.ok.inj h).symm

/-- A trailer has the size of the table, and for the other names what was found or else what it had
    before. -/
theorem get?_updateTrailer (r : Recovery) (t : Trailer) (n : Name) :
    (r.updateTrailer t).get? n =
      if n = "Size" then some (.integer (min (r.table.highestNumber + 1) Decimal.maxSigned64))
      else if n = "Info" then (r.stats.info.map .reference).or (t.get? n)
      else if n = "Root" then (r.stats.root.map .reference).or (t.get? n)
      else t.get? n := by
  have hapart : Name.ofString "Info" ≠ Name.ofString "Root" := by decide
  unfold updateTrailer
  by_cases hinfo : n = "Info"
  · cases r.stats.root <;> cases r.stats.info <;> simp [hinfo, hapart]
  · cases r.stats.root <;> cases r.stats.info <;> simp [hinfo]

theorem offsets_updateTrailer (r : Recovery) (t : Trailer) :
    (r.updateTrailer t).offsets = t.offsets := by
  unfold updateTrailer
  cases r.stats.root <;> cases r.stats.info <;> rfl

theorem offsets_run {t : Trailer} {rebuilt : Recovery × Trailer}
    (h : run options file index t = .ok rebuilt) : rebuilt.2.offsets = t.offsets := by
  rw [eq_survey_of_run h]
  exact offsets_updateTrailer _ t

end Recovery

end CrossReference
