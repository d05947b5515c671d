import CrossReference.Proofs.Token.Words
import CrossReference.Section.TextTable

set_option autoImplicit false

/-! # Drafts

The steps of the reader of tables, each by an equation, and what they keep. A draft only grows: its
records are those of the subsections, and nothing that happens behind the subsections adds to them
or takes from them. So the records of a table are known even if its trailer cannot be read
(`records_readTable`). -/

namespace CrossReference.Section

/-! ## Steps -/

theorem move_eq (f : Cursor → Cursor) (d : Draft) :
    move f d = .ok () { d with cursor := f d.cursor } := rfl

theorem reading_of_ok {α : Type} {r : Reader α} {d : Draft} {a : α} {c : Cursor}
    (h : r d.cursor = .ok a c) : reading r d = .ok a { d with cursor := c } := by
  unfold reading
  rw [h]

theorem skipToText_eq (d : Draft) :
    skipToText d = .ok d.cursor.skipWhite { d with cursor := d.cursor.skipWhite } := rfl

/-- Adds what the line at a place says about an object. -/
def keepRecord (pedantic : Bool) (number : Nat) (c : Cursor) : DraftReader Unit :=
  match recordLine? pedantic c.line with
  | some (generation, entry) => addEntry ⟨number, generation⟩ entry
  | none => complain c.position s!"Skipping malformed entry for object {number}: {showLine c.line}"

theorem readRecord_eq (pedantic : Bool) (number : Nat) (c : Cursor) :
    readRecord pedantic number c = (do
      move Cursor.skipLine
      if Decimal.maxWord64 < number then throw .unusableTable
      else keepRecord pedantic number c) := by
  unfold readRecord keepRecord
  refine bind_congr fun _ => ?_
  generalize recordLine? pedantic c.line = found
  cases found <;> (dsimp only; split <;> rfl)

/-- Reads the records that the header line at a place announces. -/
def readAnnounced (pedantic : Bool) (c : Cursor) : DraftReader Unit :=
  match headerLine? c.line with
  | some (start, count) => readRecords pedantic start count 0 count
  | none => complain c.position s!"Skipping unexpected line in xref section: {showLine c.line}"

theorem readSubsections_succ (pedantic : Bool) (rounds : Nat) :
    readSubsections pedantic (rounds + 1) = (do
      let c ← skipToText
      if c.atDigit then
        move Cursor.skipLine
        readAnnounced pedantic c
        readSubsections pedantic rounds
      else return ()) := by
  unfold readAnnounced
  rw [readSubsections]
  refine bind_congr fun c => ?_
  split
  · refine bind_congr fun _ => ?_
    generalize headerLine? c.line = found
    cases found <;> rfl
  · rfl

/-! ## What is kept -/

/-- The draft with which a reading ends, be it with a fault. -/
def lastDraft {α : Type} : EStateM.Result Error Draft α → Draft
  | .ok _ d => d
  | .error _ d => d

/-- A reading that leaves the records of every draft as they are. -/
def KeepsRecords {α : Type} (x : DraftReader α) : Prop :=
  ∀ d, (lastDraft (x d)).records = d.records

theorem KeepsRecords.bind {α β : Type} {x : DraftReader α} {f : α → DraftReader β}
    (hx : KeepsRecords x) (hf : ∀ a, KeepsRecords (f a)) : KeepsRecords (x >>= f) := by
  intro d
  have h := hx d
  cases hd : x d with
  | ok a d' =>
    rw [bind_of_ok hd]
    rw [hd] at h
    exact (hf a d').trans h
  | error e d' =>
    rw [bind_of_error hd]
    rw [hd] at h
    exact h

theorem keepsRecords_pure {α : Type} (a : α) : KeepsRecords (pure a) := fun _ => rfl

theorem keepsRecords_throw {α : Type} (e : Error) : KeepsRecords (throw e : DraftReader α) :=
  fun _ => rfl

theorem keepsRecords_move (f : Cursor → Cursor) : KeepsRecords (move f) := fun _ => rfl

theorem keepsRecords_complain (offset : Nat) (message : String) :
    KeepsRecords (complain offset message) := fun _ => rfl

theorem keepsRecords_reading {α : Type} (r : Reader α) : KeepsRecords (reading r) := by
  intro d
  unfold reading
  cases r d.cursor <;> rfl

theorem keepsRecords_skipToText : KeepsRecords skipToText := fun _ => rfl

theorem keepsRecords_findTrailer (rounds : Nat) : KeepsRecords (findTrailer rounds) := by
  induction rounds with
  | zero => exact keepsRecords_throw _
  | succ rounds ih =>
    refine keepsRecords_skipToText.bind fun c => ?_
    split
    · exact keepsRecords_throw _
    · exact keepsRecords_pure _
    · exact (keepsRecords_move _).bind fun _ => (keepsRecords_complain _ _).bind fun _ => ih

theorem keepsRecords_readTrailer (tolerance : Tolerance) :
    KeepsRecords (readTrailer tolerance) := by
  have hfind : KeepsRecords (draftRounds findTrailer) := fun d => keepsRecords_findTrailer _ d
  exact hfind.bind fun _ => (keepsRecords_reading _).bind fun _ =>
    (keepsRecords_reading _).bind fun _ => keepsRecords_pure _

/-- Reads the keyword of a table and its subsections. -/
def readBody (pedantic : Bool) : DraftReader Unit := do
  reading (Reader.expect Reserved.xref.spelling)
  draftRounds (readSubsections pedantic)

theorem readTable_eq (tolerance : Tolerance) (file : Bytes) (offset : Nat) :
    readTable tolerance file offset =
      (do readBody tolerance.pedantic; readTrailer tolerance : DraftReader _)
        { cursor := ⟨offset, file.drop offset⟩ } := by
  unfold readTable readBody
  simp only [bind_assoc]

/-- The records of the table at an offset: those of its subsections, up to the first fault. -/
def tableRecords (tolerance : Tolerance) (file : Bytes) (offset : Nat) : List (Key × Entry) :=
  (lastDraft (readBody tolerance.pedantic { cursor := ⟨offset, file.drop offset⟩ })).records

/-- A table has the records of its subsections, whether its trailer can be read or not. -/
theorem records_readTable (tolerance : Tolerance) (file : Bytes) (offset : Nat) :
    (lastDraft (readTable tolerance file offset)).records =
      tableRecords tolerance file offset := by
  rw [readTable_eq, tableRecords]
  cases h : readBody tolerance.pedantic { cursor := ⟨offset, file.drop offset⟩ } with
  | ok _ d =>
    rw [bind_of_ok h]
    exact keepsRecords_readTrailer tolerance d
  | error e d =>
    rw [bind_of_error h]
    rfl

end CrossReference.Section
