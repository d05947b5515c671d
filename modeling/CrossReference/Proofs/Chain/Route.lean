import CrossReference.Chain

set_option autoImplicit false

/-! # The route of a walk

The walk along the chain, taken apart. A `Leg` is all that the walk gets from one section: the
records of the section itself and, of a table, those of its companion stream; trailers, revisions
and complaints; and where the walk goes on. A leg depends on the document and on the offsets that
were followed before, and on nothing else that the walk carries along. The `route` is the list of
all legs, newest first.

`run_readSection` says that reading a section adds its leg to the walk, and `walk_eq` that the whole
walk adds the legs of the route one by one and then ends as its `Ending` says. -/

namespace CrossReference

/-! ## Legs -/

/-- What a walk gets from one section on its route. -/
structure Leg where
  offset : Nat
  /-- The records of the section itself, in order. -/
  own : List (Key × Entry) := []
  /-- The records of a table's companion stream, in order. -/
  hidden : List (Key × Entry) := []
  /-- The trailers that can be read, with their offsets. -/
  trailers : List (Dict Object × Nat) := []
  /-- The sections that can be read to their end. -/
  revisions : List Revision := []
  notes : List Diagnostic := []
  /-- The offset of a companion that was not followed before. -/
  companion : Option Nat := none
  /-- The offset of the next older section. -/
  next : Option Nat := none

namespace LinkRole

variable (options : Options) (file : Bytes)

/-- Whether a section that a link accepts stands at an offset. -/
def holds (role : LinkRole) (offset : Nat) : Bool :=
  (Section.probe options.toTolerance file offset).any role.accepts

/-- Where a link leads: to its own offset if a section stands there, else to a substitute. -/
def target? (role : LinkRole) (visited : List Nat) (offset : Nat) : Option Nat :=
  if role.holds options file offset then some offset
  else Repair.substitute? options file visited role offset

/-- The complaint about a link that leads nowhere. -/
def notes (role : LinkRole) (offset : Nat) : List Diagnostic :=
  if role.holds options file offset then []
  else [⟨.offsetInvalid, some offset,
    s!"{role.text} offset {offset} does not point at cross-reference data"⟩]

end LinkRole

namespace Leg

variable (options : Options) (file : Bytes)

/-! ### Links in trailers -/

/-- The next older section that a trailer links to, and complaints about the link. -/
def prevLink (visited : List Nat) (trailer : Dict Object) : Option Nat × List Diagnostic :=
  match trailer.get? "Prev" with
  | none => (none, [])
  | some (.integer (.ofNat 0)) => (none, [])
  | some (.integer (.ofNat offset)) =>
    (LinkRole.prev.target? options file visited offset, LinkRole.prev.notes options file offset)
  | some other => (none, [⟨.offsetInvalid, none, s!"Ignoring /Prev {other.describe}"⟩])

/-- The companion that a trailer links to, unless it was followed before, and complaints about the
    link. -/
def companionLink (visited : List Nat) (trailer : Dict Object) : Option Nat × List Diagnostic :=
  match trailer.get? "XRefStm" with
  | none => (none, [])
  | some (.integer (.ofNat (n + 1))) =>
    let notes := LinkRole.companion.notes options file (n + 1)
    match LinkRole.companion.target? options file visited (n + 1) with
    | none => (none, notes)
    | some offset =>
      if visited.contains offset then
        (none, notes ++
          [⟨.revisionCycle, some offset, "/XRefStm points at a section that was already read"⟩])
      else (some offset, notes)
  | some _ =>
    (none, [⟨.structuralWarning, none, "Ignoring /XRefStm that is not a positive integer"⟩])

/-! ### Sections -/

/-- What a stream gives: nothing but complaints, unless it is decoded to its end. -/
def ofStream (tolerance : Tolerance) (fault : String) (offset : Nat) : Leg :=
  match Section.readStream tolerance file offset with
  | (.error e, notes) =>
    { offset
      notes := notes ++ [⟨.streamDecodeError, some offset, s!"{fault}{e.message}"⟩] }
  | (.ok s, notes) =>
    { offset
      own := s.records
      trailers := [(s.entries, offset)]
      revisions := [⟨offset, .stream, offset⟩]
      notes }

/-- A leg that goes on where a trailer says. -/
def followedBy (l : Leg) (visited : List Nat) (trailer : Dict Object) : Leg :=
  let prev := prevLink options file visited trailer
  { l with notes := l.notes ++ prev.2, next := prev.1 }

/-- The stream at an offset, as a section of its own. -/
def stream (visited : List Nat) (offset : Nat) : Leg :=
  let l := ofStream file options.toTolerance "Xref stream is unusable: " offset
  match l.trailers with
  | (trailer, _) :: _ => l.followedBy options file visited trailer
  | [] => l

/-- A table together with its companion. -/
def withCompanion (l : Leg) (visited : List Nat) (trailer : Dict Object) : Leg :=
  match companionLink options file visited trailer with
  | (none, notes) => { l with notes := l.notes ++ notes }
  | (some offset, notes) =>
    let c := ofStream file options.toTolerance "Hybrid xref stream is unusable: " offset
    { l with
      hidden := c.own
      trailers := l.trailers ++ c.trailers
      revisions := l.revisions ++ c.revisions
      notes := l.notes ++ notes ++ c.notes
      companion := some offset }

/-- The table at an offset. What was read before a fault counts. -/
def table (visited : List Nat) (offset : Nat) : Leg :=
  match Section.readTable options.toTolerance file offset with
  | .error e draft =>
    { offset
      own := draft.records
      notes := draft.notes ++
        [⟨.structuralWarning, some offset, s!"Xref table is unusable: {e.message}"⟩] }
  | .ok (trailerOffset, trailer) draft =>
    let own : Leg :=
      { offset
        own := draft.records
        trailers := [(trailer, trailerOffset)]
        revisions := [⟨offset, .table, trailerOffset⟩]
        notes := draft.notes }
    let l := own.withCompanion options file visited trailer
    l.followedBy options file (l.companion.toList ++ visited) trailer

/-- The section at an offset, its own offset being among those that were followed. -/
def read (visited : List Nat) (offset : Nat) : Leg :=
  match Section.probe options.toTolerance file offset with
  | some .table => table options file visited offset
  | some .stream => stream options file visited offset
  | none =>
    { offset
      notes := [⟨.offsetInvalid, some offset, "No cross-reference data at this offset"⟩] }

@[simp] theorem offset_ofStream (tolerance : Tolerance) (fault : String) (offset : Nat) :
    (ofStream file tolerance fault offset).offset = offset := by
  unfold ofStream
  split <;> rfl

@[simp] theorem offset_followedBy (l : Leg) (visited : List Nat) (trailer : Dict Object) :
    (l.followedBy options file visited trailer).offset = l.offset := rfl

@[simp] theorem offset_withCompanion (l : Leg) (visited : List Nat) (trailer : Dict Object) :
    (l.withCompanion options file visited trailer).offset = l.offset := by
  unfold withCompanion
  split <;> rfl

@[simp] theorem offset_read (visited : List Nat) (offset : Nat) :
    (read options file visited offset).offset = offset := by
  unfold read table stream
  split
  · split <;> simp
  · dsimp only
    split <;> simp
  · rfl

/-! ### What a leg lists -/

/-- Which entry for a key counts, of that in a table and that in its companion: the table's own if
    it locates an object, else the companion's if there is one. -/
def shown (own hidden : Option Entry) : Option Entry :=
  if own.any Entry.isInUse then own else hidden.or own

/-- The entry that a leg lists for a key. Of several records for a key the first one counts. -/
def listed? (l : Leg) (k : Key) : Option Entry :=
  shown (OrderedMap.lookup k l.own) (OrderedMap.lookup k l.hidden)

/-- The entries that a leg lists, as a table. -/
def entries (l : Leg) : Table := Chain.overlay (.ofList l.own) (.ofList l.hidden)

end Leg

/-! ## Routes -/

/-- How a walk ends. -/
inductive Ending where
  /-- Behind a section that leads nowhere. -/
  | last
  /-- At an offset that was followed before. -/
  | cycle (offset : Nat)
  /-- At an offset behind as many sections as may be read. -/
  | limit (offset : Nat)
deriving DecidableEq, Repr

namespace Ending

/-- The complaint that goes with an ending. -/
def notes (options : Options) : Ending → List Diagnostic
  | last => []
  | cycle offset =>
    [⟨.revisionCycle, some offset, s!"Xref at {offset} was already visited, stopping the chain"⟩]
  | limit offset =>
    [⟨.structuralWarning, some offset, s!"Stopping after {options.maxRevisions} revisions"⟩]

/-- The offset that counts as followed although its section was not read. -/
def followed : Ending → List Nat
  | limit offset => [offset]
  | _ => []

end Ending

namespace Route

variable (options : Options) (file : Bytes)

/-- The offsets that count as followed behind a leg. -/
def follow (visited : List Nat) (l : Leg) : List Nat := l.companion.toList ++ visited

/-- The legs of a walk that goes on at an offset, where it may read so many sections more. -/
def legsFrom (visited : List Nat) (offset : Nat) : (left : Nat) → List Leg
  | 0 => []
  | left + 1 =>
    if visited.contains offset then []
    else
      let l := Leg.read options file (offset :: visited) offset
      l :: match l.next with
        | none => []
        | some next => legsFrom (follow (offset :: visited) l) next left

/-- How a walk ends that goes on at an offset, where it may read so many sections more. -/
def endingFrom (visited : List Nat) (offset : Nat) : (left : Nat) → Ending
  | 0 => if visited.contains offset then .cycle offset else .limit offset
  | left + 1 =>
    if visited.contains offset then .cycle offset
    else
      let l := Leg.read options file (offset :: visited) offset
      match l.next with
      | none => .last
      | some next => endingFrom (follow (offset :: visited) l) next left

/-- Where the walk begins. -/
def start? : Option Nat :=
  (StartLink.find options file).1.bind (LinkRole.start.target? options file [])

/-- The complaints before the walk begins. -/
def startNotes : List Diagnostic :=
  (StartLink.find options file).2 ++
    match (StartLink.find options file).1 with
    | none => []
    | some offset => LinkRole.start.notes options file offset

/-- The legs of the whole walk, newest first. -/
def legs : List Leg :=
  match start? options file with
  | none => []
  | some offset => legsFrom options file [] offset options.maxRevisions

/-- How the whole walk ends. -/
def ending : Ending :=
  match start? options file with
  | none => .last
  | some offset => endingFrom options file [] offset options.maxRevisions

/-! ### Where legs come from -/

variable {options file}

theorem exists_read_of_mem_legsFrom {visited : List Nat} {offset left : Nat} {l : Leg}
    (hl : l ∈ legsFrom options file visited offset left) :
    ∃ visited' offset', l = Leg.read options file visited' offset' := by
  induction left generalizing visited offset with
  | zero => cases hl
  | succ left ih =>
    unfold legsFrom at hl
    split at hl
    · cases hl
    · dsimp only at hl
      rcases List.mem_cons.mp hl with rfl | hl
      · exact ⟨_, _, rfl⟩
      · split at hl
        · cases hl
        · exact ih hl

/-- Every leg of a route is what a section gives. -/
theorem exists_read_of_mem_legs {l : Leg} (hl : l ∈ legs options file) :
    ∃ visited offset, l = Leg.read options file visited offset := by
  unfold legs at hl
  split at hl
  · cases hl
  · exact exists_read_of_mem_legsFrom hl

end Route

namespace Chain

/-- Adds complaints to a walk. -/
def note (ch : Chain) (ds : List Diagnostic) : Chain := { ch with notes := ch.notes ++ ds }

/-- Adds what a leg gives to a walk that has followed its offset. -/
def gain (ch : Chain) (l : Leg) : Chain where
  table := ch.table.merge l.entries
  trailer := l.trailers.foldl (fun t d => t.merge d.1 d.2) ch.trailer
  notes := ch.notes ++ l.notes
  revisions := ch.revisions ++ l.revisions
  visited := Route.follow ch.visited l

/-- Follows the offset of a leg and adds what it gives. -/
def absorb (ch : Chain) (l : Leg) : Chain :=
  { ch with visited := l.offset :: ch.visited }.gain l

/-- Ends a walk. -/
def finish (options : Options) (ch : Chain) (e : Ending) : Chain :=
  { ch.note (e.notes options) with visited := e.followed ++ ch.visited }

/-- The walk before its first section. -/
def outset (options : Options) (file : Bytes) : Chain :=
  { notes := Route.startNotes options file }

end Chain

end CrossReference
