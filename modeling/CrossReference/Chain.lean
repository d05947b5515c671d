import CrossReference.Scan
import CrossReference.Section.TextTable

set_option autoImplicit false

/-! # The chain of sections

The newest section is found through the keyword `startxref` near the end of the document, each older
one through an offset in the trailer of the one before it. An offset is only followed if a section
stands there; else the nearest section is taken, if repairs are wanted, or the link is dropped. No
section is read twice, and no more than a given number are read one after the other, so the walk
ends however the links are tangled. A table may have a companion, a stream with entries that the
table hides from older readers. -/

namespace CrossReference

/-- The walk along the chain, as far as it has come. -/
structure Chain extends Harvest where
  /-- The sections that were read, newest first. -/
  revisions : List Revision := []
  /-- The offsets that were followed. -/
  visited : List Nat := []

/-- What a link asks for. -/
inductive LinkRole where
  /-- The newest section. -/
  | start
  /-- The next older section. -/
  | prev
  /-- The companion stream of a table. -/
  | companion
deriving DecidableEq, Repr

namespace LinkRole

/-- Whether a link may lead to a section of some form. -/
def accepts : LinkRole → SectionKind → Bool
  | companion, kind => kind = .stream
  | _, _ => true

/-- How a link is named in messages. -/
def text : LinkRole → String
  | start => "startxref"
  | prev => "/Prev"
  | companion => "/XRefStm"

end LinkRole

/-! ## Repairs -/

namespace Repair

/-- How much of an object is looked at to see whether it can be a cross-reference stream. -/
def glance : Nat := 512

/-- The sections that a scan comes upon: tables first, then streams, each in the order of the
    document. -/
def candidates (tolerance : Tolerance) (file : Bytes) : List (Nat × SectionKind) :=
  let index := ScanIndex.scan file
  let tables := index.tables.filter fun offset =>
    Section.probe tolerance file offset = some .table
  let streams := index.objects.filter fun e =>
    (Bytes.first? (ascii "/XRef") ((file.drop e.2).take glance)).isSome &&
      Section.probe tolerance file e.2 = some .stream
  tables.map (·, .table) ++ streams.map (·.2, .stream)

/-- How far two offsets are apart. -/
def distance (a b : Nat) : Nat := (a - b) + (b - a)

/-- The offset nearest to a given one, the first of them if several are. -/
def nearest? (offset : Nat) : List Nat → Option Nat
  | [] => none
  | candidate :: rest =>
    match nearest? offset rest with
    | none => some candidate
    | some other =>
      if distance other offset < distance candidate offset then some other else some candidate

/-- The section that is taken in the place of a bad offset. -/
def substitute? (options : Options) (file : Bytes) (visited : List Nat) (role : LinkRole)
    (offset : Nat) : Option Nat :=
  if options.repairOffsets then
    nearest? offset (((candidates options.toTolerance file).filter fun c =>
      role.accepts c.2 && !visited.contains c.1).map (·.1))
  else none

end Repair

/-! ## The newest section -/

namespace StartLink

/-- Reads the keyword `startxref` and the number behind it. -/
def value : Reader Int := do
  Reader.expect Reserved.startXref.spelling
  Reader.integer

/-- The offset of the last keyword `startxref` in the last bytes of a document. The windows are
    tried in order; one that is no larger than those before it cannot show more. -/
def keyword? (file : Bytes) (length searched : Nat) : (windows : List Nat) → Option Nat
  | [] => none
  | window :: rest =>
    let window := min window length
    if window ≤ searched then keyword? file length searched rest
    else
      match Bytes.last? Reserved.startXref.spelling (file.drop (length - window)) with
      | some i => some (length - window + i)
      | none => keyword? file length window rest

/-- The offset behind a keyword `startxref`, or a complaint. -/
def offsetAt (file : Bytes) (keyword : Nat) : Option Nat × List Diagnostic :=
  match value ⟨keyword, file.drop keyword⟩ with
  | .ok (.ofNat offset) _ => (some offset, [])
  | .ok offset _ =>
    (none, [⟨.offsetInvalid, some keyword, s!"Negative startxref offset {offset}"⟩])
  | .error e _ =>
    (none, [⟨.structuralWarning, some keyword,
      s!"startxref is not followed by an offset: {e.message}"⟩])

/-- The offset of the newest section, as the document gives it, or a complaint. -/
def find (options : Options) (file : Bytes) : Option Nat × List Diagnostic :=
  match keyword? file file.length 0 [options.startWindow, options.extendedWindow] with
  | some keyword => offsetAt file keyword
  | none => (none, [⟨.structuralWarning, none, "No startxref keyword found"⟩])

end StartLink

/-! ## The walk -/

namespace Chain

/-- A computation that goes on with a walk. -/
abbrev Walk := StateM Chain

/-- Adds a complaint. -/
def complain (kind : DiagnosticKind) (offset : Option Nat) (message : String) : Walk Unit :=
  modify fun ch => { ch with notes := ch.notes ++ [⟨kind, offset, message⟩] }

/-- Adds the entries that are new. -/
def mergeTable (t : Table) : Walk Unit := modify fun ch => { ch with table := ch.table.merge t }

/-- Adds a section that was read. -/
def addRevision (r : Revision) : Walk Unit :=
  modify fun ch => { ch with revisions := ch.revisions ++ [r] }

/-- Marks an offset as followed, and answers whether it was marked before. -/
def visit (offset : Nat) : Walk Bool := do
  let again := (← get).visited.contains offset
  if !again then modify fun ch => { ch with visited := offset :: ch.visited }
  return again

/-- The offset to follow for a link: its own, or a substitute with a complaint, or none. -/
def usableOffset (options : Options) (file : Bytes) (role : LinkRole) (offset : Nat) :
    Walk (Option Nat) := do
  if (Section.probe options.toTolerance file offset).any role.accepts then return some offset
  else
    complain .offsetInvalid (some offset)
      s!"{role.text} offset {offset} does not point at cross-reference data"
    return Repair.substitute? options file (← get).visited role offset

/-- The next older section that a trailer links to. Zero stands for none. -/
def prevOffset (options : Options) (file : Bytes) (trailer : Dict Object) : Walk (Option Nat) := do
  match trailer.get? "Prev" with
  | none => return none
  | some (.integer (.ofNat 0)) => return none
  | some (.integer (.ofNat offset)) => usableOffset options file .prev offset
  | some other =>
    complain .offsetInvalid none s!"Ignoring /Prev {other.describe}"
    return none

/-- The companion stream that a table's trailer links to, if it was not read yet. -/
def companionOffset (options : Options) (file : Bytes) (trailer : Dict Object) :
    Walk (Option Nat) := do
  match trailer.get? "XRefStm" with
  | none => return none
  | some (.integer (.ofNat (n + 1))) =>
    match ← usableOffset options file .companion (n + 1) with
    | none => return none
    | some offset =>
      if ← visit offset then
        complain .revisionCycle (some offset) "/XRefStm points at a section that was already read"
        return none
      else return some offset
  | some _ =>
    complain .structuralWarning none "Ignoring /XRefStm that is not a positive integer"
    return none

/-- A table's entries with those of its companion: the table's own count if they are in use, since
    it lists what the companion has as free. -/
def overlay (own hidden : Table) : Table :=
  hidden.toList.foldl (fun t e =>
    if (t.get? e.1).any Entry.isInUse then t else (t.remove e.1).add e.1 e.2) own

/-- Reads the companion stream of a table, and answers with the entries of both. -/
def readCompanion (tolerance : Tolerance) (file : Bytes) (offset : Nat) (own : Table) :
    Walk Table := do
  let ch ← get
  let bare : Harvest := { ch.toHarvest with table := .empty }
  let (result, h) := bare.addStream tolerance file offset
  set { ch with trailer := h.trailer, notes := h.notes }
  match result with
  | .error e =>
    complain .streamDecodeError (some offset) s!"Hybrid xref stream is unusable: {e.message}"
    return own
  | .ok _ =>
    addRevision ⟨offset, .stream, offset⟩
    return overlay own h.table

/-- Reads the table at an offset and its companion, and answers with the next offset to follow. What
    was read before a fault counts. -/
def readTable (options : Options) (file : Bytes) (offset : Nat) : Walk (Option Nat) := do
  match Section.readTable options.toTolerance file offset with
  | .error e draft =>
    modify fun ch => { ch with notes := ch.notes ++ draft.notes }
    mergeTable draft.table
    complain .structuralWarning (some offset) s!"Xref table is unusable: {e.message}"
    return none
  | .ok (trailerOffset, trailer) draft =>
    modify fun ch =>
      { ch with
        notes := ch.notes ++ draft.notes
        trailer := ch.trailer.merge trailer trailerOffset }
    addRevision ⟨offset, .table, trailerOffset⟩
    match ← companionOffset options file trailer with
    | none => mergeTable draft.table
    | some companion =>
      mergeTable (← readCompanion options.toTolerance file companion draft.table)
    prevOffset options file trailer

/-- Reads the stream at an offset, and answers with the next offset to follow. -/
def readStream (options : Options) (file : Bytes) (offset : Nat) : Walk (Option Nat) := do
  let ch ← get
  let (result, h) := ch.toHarvest.addStream options.toTolerance file offset
  set { ch with toHarvest := h }
  match result with
  | .error e =>
    complain .streamDecodeError (some offset) s!"Xref stream is unusable: {e.message}"
    return none
  | .ok entries =>
    addRevision ⟨offset, .stream, offset⟩
    prevOffset options file entries

/-- Reads the section at an offset, and answers with the next offset to follow. -/
def readSection (options : Options) (file : Bytes) (offset : Nat) : Walk (Option Nat) := do
  match Section.probe options.toTolerance file offset with
  | some .table => readTable options file offset
  | some .stream => readStream options file offset
  | none =>
    complain .offsetInvalid (some offset) "No cross-reference data at this offset"
    return none

/-- Stops at an offset that was followed before. -/
def stopAtCycle (offset : Nat) : Walk Unit :=
  complain .revisionCycle (some offset)
    s!"Xref at {offset} was already visited, stopping the chain"

/-- Walks along the chain from an offset, reading at most so many sections one after the other. -/
def walkFrom (options : Options) (file : Bytes) (offset : Nat) : (left : Nat) → Walk Unit
  | 0 => do
    if ← visit offset then stopAtCycle offset
    else
      complain .structuralWarning (some offset)
        s!"Stopping after {options.maxRevisions} revisions"
  | left + 1 => do
    if ← visit offset then stopAtCycle offset
    else
      match ← readSection options file offset with
      | none => return ()
      | some next => walkFrom options file next left

/-- Walks along the whole chain. -/
def walk (options : Options) (file : Bytes) : Chain :=
  let (start, notes) := StartLink.find options file
  let body : Walk Unit := do
    match start with
    | none => return ()
    | some offset =>
      match ← usableOffset options file .start offset with
      | none => return ()
      | some offset => walkFrom options file offset options.maxRevisions
  (body.run { notes }).2

end Chain

end CrossReference
