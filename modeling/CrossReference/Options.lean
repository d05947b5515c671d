set_option autoImplicit false

/-! # Options

How much a reader puts up with. `Tolerance` is what matters to the reading of single objects and
streams; `Options` adds what matters to the resolution of a whole document. Three presets cover the
usual cases: `strict` refuses what the format forbids, `lenient` drops what cannot be trusted, and
`tolerant` looks for a substitute first. -/

namespace CrossReference

/-- What the readers of objects and streams accept. -/
structure Tolerance where
  /-- Insist on the exact form of records, headers and stream types. -/
  pedantic : Bool
  /-- Look for the end of a stream whose length is missing, indirect or wrong. -/
  lenientStreams : Bool
  /-- How many bytes are searched for the end of a stream. -/
  streamSearchLimit : Nat
  /-- How deep arrays and dictionaries of one object may be nested. -/
  maxNesting : Nat
deriving DecidableEq, Repr

/-- What the resolution of a document does. -/
structure Options extends Tolerance where
  /-- Keep the diagnostics in the result. -/
  collect : Bool
  /-- The size of the document's tail that is searched for `startxref`. -/
  startWindow : Nat
  /-- The size of the tail that is searched if the first search fails; zero for no second search. -/
  extendedWindow : Nat
  /-- Replace an offset that leads nowhere by that of the nearest section. -/
  repairOffsets : Bool
  /-- Compare every offset of an object with the object header that stands there. -/
  verifyOffsets : Bool
  /-- Rebuild the table from the whole document if the sections are of no use. -/
  rebuild : Bool
  /-- Look into the object streams that a rebuild finds. -/
  rebuildStreams : Bool
  /-- How many sections are read one after the other. -/
  maxRevisions : Nat
deriving DecidableEq, Repr

namespace Options

/-- Refuses whatever does not follow the format. -/
def strict : Options where
  pedantic := true
  lenientStreams := false
  streamSearchLimit := 0
  maxNesting := 256
  collect := true
  startWindow := 2048
  extendedWindow := 0
  repairOffsets := false
  verifyOffsets := true
  rebuild := false
  rebuildStreams := false
  maxRevisions := 1024

/-- Drops what cannot be trusted and falls back on a rebuild. -/
def lenient : Options where
  pedantic := false
  lenientStreams := true
  streamSearchLimit := 1024 * 1024
  maxNesting := 256
  collect := true
  startWindow := 2048
  extendedWindow := 64 * 1024
  repairOffsets := false
  verifyOffsets := true
  rebuild := true
  rebuildStreams := true
  maxRevisions := 1024

/-- Like `lenient`, and repairs bad offsets. -/
def tolerant : Options :=
  { lenient with repairOffsets := true, streamSearchLimit := 16 * 1024 * 1024 }

end Options

end CrossReference
