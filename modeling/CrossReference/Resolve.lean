import CrossReference.Chain
import CrossReference.Recovery
import CrossReference.Sweep

set_option autoImplicit false

/-! # Resolving a document

The cross-reference data of a PDF document says where its objects are. The whole way to it: walk
along the chain of sections, sweep over the offsets, and rebuild the table if nothing of use is
left. A chain is of no use if it gives no entries, or if the sweep excluded some and left none that
locates an object. Diagnostics are listed on the way and kept only at the end, so collecting them
cannot influence anything else. -/

namespace CrossReference

/-- What the resolution of a document gives. -/
structure Resolution where
  table : Table
  trailer : Trailer
  /-- The sections that were read, newest first. -/
  revisions : List Revision
  diagnostics : List Diagnostic
  /-- The entries that the sweep put aside, with the offsets that they had. -/
  excluded : List (Key × Entry)
  /-- What a rebuild came upon, if there was one. -/
  recovery : Option RecoveryStats

namespace Resolution

/-- Whether the table was rebuilt. -/
def recovered (r : Resolution) : Bool := r.recovery.isSome

end Resolution

namespace Resolve

/-- What the sweep makes of the chain's table, if offsets are to be verified. -/
def swept (options : Options) (file : Bytes) (t : Table) : Sweep :=
  if t.isEmpty || !options.verifyOffsets then { table := t }
  else .run options.repairOffsets file t

/-- Whether a sweep excluded entries and left none that locates an object. -/
def lostAll (s : Sweep) : Bool := !s.excluded.isEmpty && !s.table.hasInUse

/-- The complaint that nothing is left after the sweep. -/
def lostNotes (s : Sweep) : List Diagnostic :=
  if lostAll s then
    [⟨.structuralWarning, none, "No in-use entry survived the offset check"⟩]
  else []

end Resolve

/-- Resolves the cross-reference data of a document. -/
def resolve (options : Options) (file : Bytes) : Except Error Resolution :=
  let chain := Chain.walk options file
  let sweep := Resolve.swept options file chain.table
  let notes := chain.notes ++ sweep.notes ++ Resolve.lostNotes sweep
  let kept (notes : List Diagnostic) : List Diagnostic :=
    ((⟨options.collect, []⟩ : Log).recordAll notes).entries
  if !chain.table.isEmpty && !Resolve.lostAll sweep then
    .ok
      { table := sweep.table
        trailer := chain.trailer
        revisions := chain.revisions
        diagnostics := kept notes
        excluded := sweep.excluded
        recovery := none }
  else if options.rebuild then
    match Recovery.run options file (.scan file) chain.trailer with
    | .error e => .error e
    | .ok (r, trailer) =>
      .ok
        { table := r.table
          trailer
          revisions := chain.revisions
          diagnostics := kept (notes ++ r.notes)
          excluded := sweep.excluded
          recovery := some r.stats }
  else .error .unusableTable

end CrossReference
