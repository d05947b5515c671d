import CrossReference.Proofs.Section.Steps
import CrossReference.Section.Stream

set_option autoImplicit false

/-! # The dictionary of a section

A section that was read is listed with the offset of its trailer, and its dictionary can be read
again from there: behind the keyword `trailer`, or in the definition of a stream. For a table this
rests on the reader never losing its place in the document, whatever lines it skips. -/

namespace CrossReference

/-- Whether a cursor is a place of a document. -/
def Cursor.In (file : Bytes) (c : Cursor) : Prop := c.rest = file.drop c.position

theorem Cursor.In.advance {file : Bytes} {c : Cursor} (h : c.In file) (n : Nat) :
    (c.advance n).In file := by
  change c.rest.drop n = file.drop (c.position + n)
  rw [h, List.drop_drop]

namespace Section

variable {tolerance : Tolerance} {file : Bytes}

/-- The dictionary behind the keyword `trailer` at an offset. -/
def trailerAt? (tolerance : Tolerance) (file : Bytes) (offset : Nat) : Option (Dict Object) :=
  let dict : Reader (Dict Object) := do
    Reader.expect Reserved.trailer.spelling
    Object.readDict tolerance
  (Reader.run? dict ⟨offset, file.drop offset⟩).map (·.1)

/-- The dictionary of the stream that is defined at an offset. -/
def streamDictAt? (tolerance : Tolerance) (file : Bytes) (offset : Nat) : Option (Dict Object) :=
  (streamAt tolerance file offset).toOption.map (·.2.1)

/-! ## The reader of tables keeps its place -/

theorem reading_eq_ok {α : Type} {r : Reader α} {d d' : Draft} {a : α} :
    reading r d = .ok a d' ↔ ∃ c, r d.cursor = .ok a c ∧ d' = { d with cursor := c } := by
  constructor
  · intro h
    unfold reading at h
    split at h
    · rename_i c hread
      cases h
      exact ⟨c, hread, rfl⟩
    · cases h
  · rintro ⟨c, hread, rfl⟩
    exact reading_of_ok hread

/-- A reading that stays in a document. -/
def Stays (file : Bytes) {α : Type} (x : DraftReader α) : Prop :=
  ∀ d a d', x d = .ok a d' → d.cursor.In file → d'.cursor.In file

theorem stays_expect (word : Bytes) : Stays file (reading (Reader.expect word)) := by
  intro d _ d' h hd
  obtain ⟨c, hread, rfl⟩ := reading_eq_ok.mp h
  obtain ⟨t, c₁, htoken, hcheck⟩ := bind_eq_ok.mp hread
  have hcursor : c = c₁ := by
    split at hcheck <;> cases hcheck
    rfl
  subst hcursor
  unfold Reader.token at htoken
  split at htoken
  · cases htoken
    exact hd.advance _
  · cases htoken

theorem lockstep_stays (pedantic : Bool) :
    Lockstep pedantic pedantic fun x _ => Stays file x where
  pure _ d _ _ h hd := by cases h; exact hd
  throw _ d _ _ h := by cases h
  bind hx hf d b d' h hd := by
    obtain ⟨a, d₁, hxa, hfa⟩ := bind_eq_ok.mp h
    exact hf a d₁ b d' hfa (hx d a d₁ hxa hd)
  rounds hloop d a d' h hd := hloop _ d a d' h hd
  skipToText d a d' h hd := by
    rw [skipToText_eq] at h
    cases h
    exact hd.advance _
  skipLine d a d' h hd := by
    cases h
    exact hd.advance _
  complain _ _ d _ _ h hd := by cases h; exact hd
  keepRecord number c := by
    unfold keepRecord
    split <;> (intro d a d' h hd; cases h; exact hd)

/-- The offset that is found is the place of the reader. -/
theorem position_of_findTrailer {rounds : Nat} {d d' : Draft} {offset : Nat}
    (h : findTrailer rounds d = .ok offset d') : d'.cursor.position = offset := by
  induction rounds generalizing d with
  | zero => cases h
  | succ rounds ih =>
    obtain ⟨c, d₁, hskip, h⟩ := bind_eq_ok.mp h
    rw [skipToText_eq] at hskip
    cases hskip
    generalize d.cursor.skipWhite.peek? = next at h
    split at h
    · cases h
    · cases h
      rfl
    · obtain ⟨_, d₂, _, h⟩ := bind_eq_ok.mp h
      obtain ⟨_, d₃, _, h⟩ := bind_eq_ok.mp h
      exact ih h

/-- The dictionary of a table can be read again at the offset of its trailer. -/
theorem trailerAt?_of_readTable {offset trailerOffset : Nat} {trailer : Dict Object}
    {draft : Draft}
    (h : readTable tolerance file offset = .ok (trailerOffset, trailer) draft) :
    trailerAt? tolerance file trailerOffset = some trailer := by
  have steps : Lockstep tolerance.pedantic tolerance.pedantic fun x _ => Stays file x :=
    lockstep_stays _
  have hbody : Stays file (readBody tolerance.pedantic) :=
    steps.readBody stays_expect
  rw [readTable_eq] at h
  obtain ⟨_, d₁, hbody', h⟩ := bind_eq_ok.mp h
  obtain ⟨found, d₂, hfind, h⟩ := bind_eq_ok.mp h
  obtain ⟨_, d₃, hword, h⟩ := bind_eq_ok.mp h
  obtain ⟨entries, d₄, hdict, h⟩ := bind_eq_ok.mp h
  cases h
  have hplace : d₂.cursor.In file :=
    steps.seekTrailer d₁ _ d₂ hfind (hbody _ _ _ hbody' rfl)
  have hcursor : (⟨trailerOffset, file.drop trailerOffset⟩ : Cursor) = d₂.cursor := by
    rw [← position_of_findTrailer hfind, ← hplace]
  obtain ⟨c₃, hexpect, rfl⟩ := reading_eq_ok.mp hword
  obtain ⟨c₄, hentries, _⟩ := reading_eq_ok.mp hdict
  have hread : (do Reader.expect Reserved.trailer.spelling; Object.readDict tolerance :
      Reader (Dict Object)) d₂.cursor = .ok trailer c₄ :=
    bind_eq_ok.mpr ⟨(), c₃, hexpect, hentries⟩
  unfold trailerAt? Reader.run?
  dsimp only
  rw [hcursor, hread]
  rfl

/-- The dictionary of a stream that was decoded is that of its definition. -/
theorem streamDictAt?_of_readStream {offset : Nat} {s : StreamSection} {notes : List Diagnostic}
    (h : readStream tolerance file offset = (.ok s, notes)) :
    streamDictAt? tolerance file offset = some s.entries := by
  unfold readStream at h
  split at h
  · cases h
  · rename_i key entries data hat
    split at h
    · cases h
    · split at h
      · cases h
      · cases h
        unfold streamDictAt?
        rw [hat]
        rfl

end Section

/-- The dictionary of a section that was read, from where its trailer stands. -/
def Revision.dict? (tolerance : Tolerance) (file : Bytes) (r : Revision) : Option (Dict Object) :=
  match r.kind with
  | .table => Section.trailerAt? tolerance file r.trailerOffset
  | .stream => Section.streamDictAt? tolerance file r.trailerOffset

end CrossReference
