import CrossReference.Proofs.Object.Tolerance
import CrossReference.Proofs.Section.Steps
import CrossReference.Section.Stream

set_option autoImplicit false

/-! # Sections and tolerance

A section that a strict reader reads without complaints is read in the same way by a reader that
insists on less. That there are no complaints is needed: a strict reader complains about a record
that it leaves out, and another reader may take it. -/

namespace CrossReference.Section

open Reader

variable {tolerance tolerance' : Tolerance} {file : Bytes} {offset : Nat}

/-! ## Which section stands at an offset -/

theorem looksLikeStream_within (within : tolerance.Within tolerance') {entries : Dict Object}
    (h : looksLikeStream tolerance entries = true) : looksLikeStream tolerance' entries = true := by
  unfold looksLikeStream at h ⊢
  cases hp : tolerance'.pedantic with
  | true => rwa [within.pedantic hp] at h
  | false =>
    rw [Bool.or_eq_true, Bool.and_eq_true] at h ⊢
    exact h.imp_right fun hw => ⟨rfl, hw.2⟩

theorem streamStart_within (within : tolerance.Within tolerance') {c c' : Cursor}
    (h : streamStart tolerance c = .ok true c') : streamStart tolerance' c = .ok true c' := by
  obtain ⟨key, c₁, hheader, h⟩ := bind_eq_ok.mp h
  obtain ⟨d, c₂, hdict, h⟩ := bind_eq_ok.mp h
  refine bind_eq_ok.mpr ⟨key, c₁, hheader, ?_⟩
  refine bind_eq_ok.mpr ⟨d, c₂, Object.refines_readDict within c₁ d c₂ hdict, ?_⟩
  by_cases hlooks : looksLikeStream tolerance d
  · rw [if_pos hlooks] at h
    rw [if_pos (looksLikeStream_within within hlooks)]
    exact h
  · rw [if_neg hlooks] at h
    cases h

theorem probe_within (within : tolerance.Within tolerance') {kind : SectionKind}
    (h : probe tolerance file offset = some kind) : probe tolerance' file offset = some kind := by
  unfold probe at h ⊢
  dsimp only at h ⊢
  split at h
  · cases h
  · rename_i hend
    rw [if_neg hend]
    split at h
    · rename_i hstarts
      rw [if_pos hstarts]
      exact h
    · rename_i hstarts
      rw [if_neg hstarts]
      split at h
      · rename_i c' hstart
        rw [streamStart_within within hstart]
        exact h
      · cases h

/-! ## Streams -/

/-- The stream at an offset is the one that is defined there. -/
theorem streamAt_eq_ok {key : Key} {entries : Dict Object} {data : Bytes} :
    streamAt tolerance file offset = .ok (key, entries, data) ↔
      offset ≤ file.length ∧ ∃ c,
        Object.readDefinition tolerance ⟨offset, file.drop offset⟩ =
          .ok (key, .stream entries data) c := by
  unfold streamAt Cursor.seek
  by_cases hle : offset ≤ file.length
  · rw [if_pos hle]
    dsimp only [Except.bind, bind]
    constructor
    · intro h
      split at h
      · cases h
      · rename_i c hread
        cases h
        exact ⟨hle, c, hread⟩
      · cases h
    · rintro ⟨_, c, hread⟩
      rw [hread]
      rfl
  · rw [if_neg hle]
    constructor
    · intro h
      cases h
    · exact fun h => absurd h.1 hle

theorem streamAt_within (within : tolerance.Within tolerance') {found : Key × Dict Object × Bytes}
    (h : streamAt tolerance file offset = .ok found) :
    streamAt tolerance' file offset = .ok found := by
  obtain ⟨key, entries, data⟩ := found
  obtain ⟨hle, c, hread⟩ := streamAt_eq_ok.mp h
  exact streamAt_eq_ok.mpr ⟨hle, c, Object.refines_readDefinition within _ _ _ hread⟩

/-- A stream that is accepted without a complaint has the type of cross-reference streams. -/
theorem type?_of_acceptType {key : Key} {entries : Dict Object}
    (h : acceptType tolerance key offset entries = .ok []) :
    entries.type? = some (Name.ofString "XRef") := by
  unfold acceptType at h
  split at h
  · assumption
  · split at h <;> cases h

/-- A stream that is accepted at all looks like a cross-reference stream. -/
theorem looksLikeStream_of_acceptType {key : Key} {entries : Dict Object}
    {notes : List Diagnostic} (h : acceptType tolerance key offset entries = .ok notes) :
    looksLikeStream tolerance entries = true := by
  unfold acceptType at h
  split at h
  · rename_i htype
    simp [looksLikeStream, htype]
  · split at h
    · assumption
    · cases h

theorem readStream_within (within : tolerance.Within tolerance') {s : StreamSection}
    (h : readStream tolerance file offset = (.ok s, [])) :
    readStream tolerance' file offset = (.ok s, []) := by
  unfold readStream at h ⊢
  cases hat : streamAt tolerance file offset with
  | error e =>
    rw [hat] at h
    cases h
  | ok found =>
    obtain ⟨key, entries, data⟩ := found
    rw [hat] at h
    rw [streamAt_within within hat]
    dsimp only at h ⊢
    cases haccept : acceptType tolerance key offset entries with
    | error e =>
      rw [haccept] at h
      cases h
    | ok notes =>
      rw [haccept] at h
      dsimp only at h
      -- all complaints are none, so those about the type are
      have hnotes : notes = [] := by
        split at h
        · cases h
        · exact (List.append_eq_nil_iff.mp (Prod.mk.inj h).2).1
      subst hnotes
      have htype := type?_of_acceptType haccept
      have haccept' : acceptType tolerance' key offset entries = .ok [] := by
        unfold acceptType
        rw [if_pos htype]
      rw [haccept']
      exact h

/-! ## Tables -/

/-- A record that a pedantic reader takes is taken by any reader. -/
theorem recordLine?_within {pedantic pedantic' : Bool} (hp : pedantic' = true → pedantic = true)
    {line : Bytes} {record : Nat × Entry} (h : recordLine? pedantic line = some record) :
    recordLine? pedantic' line = some record := by
  unfold recordLine? at h ⊢
  split at h
  · cases hp' : pedantic' with
    | true => rwa [hp hp'] at h
    | false =>
      cases pedantic with
      | false => exact h
      | true =>
        dsimp only at h ⊢
        split at h
        · cases h
        · exact h
  · cases h

/-- Whether a reading that ends without complaints began without, and another reading ends in the
    same way. -/
def Agree {α : Type} (x x' : DraftReader α) : Prop :=
  ∀ d a d', x d = .ok a d' → d'.notes = [] → d.notes = [] ∧ x' d = .ok a d'

theorem agree_reading {α : Type} {r r' : Reader α} (h : Refines r r') :
    Agree (reading r) (reading r') := by
  intro d a d' hread hnotes
  unfold reading at hread ⊢
  split at hread
  · rename_i a' c hr
    cases hread
    rw [h _ _ _ hr]
    exact ⟨hnotes, rfl⟩
  · cases hread

theorem agree_keepRecord {pedantic pedantic' : Bool} (hp : pedantic' = true → pedantic = true)
    (number : Nat) (c : Cursor) :
    Agree (keepRecord pedantic number c) (keepRecord pedantic' number c) := by
  intro d a d' h hnotes
  unfold keepRecord at h ⊢
  cases hline : recordLine? pedantic c.line with
  | none =>
    rw [hline] at h
    cases h
    exact absurd hnotes (by simp)
  | some record =>
    rw [hline] at h
    rw [recordLine?_within hp hline]
    cases h
    exact ⟨hnotes, rfl⟩

theorem lockstep_agree {pedantic pedantic' : Bool} (hp : pedantic' = true → pedantic = true) :
    Lockstep pedantic pedantic' Agree where
  pure _ d _ _ h hnotes := by cases h; exact ⟨hnotes, rfl⟩
  throw _ d _ _ h := by cases h
  bind hx hf d b d' h hnotes := by
    obtain ⟨a, d₁, hxa, hfa⟩ := bind_eq_ok.mp h
    obtain ⟨hnotes₁, hfa'⟩ := hf a d₁ b d' hfa hnotes
    obtain ⟨hnotes₀, hxa'⟩ := hx d a d₁ hxa hnotes₁
    exact ⟨hnotes₀, bind_eq_ok.mpr ⟨a, d₁, hxa', hfa'⟩⟩
  rounds hloop d a d' h hnotes := hloop _ d a d' h hnotes
  skipToText d a d' h hnotes := by
    rw [skipToText_eq] at h
    cases h
    exact ⟨hnotes, rfl⟩
  skipLine d a d' h hnotes := by
    cases h
    exact ⟨hnotes, rfl⟩
  complain _ _ d a d' h hnotes := by
    cases h
    exact absurd hnotes (by simp)
  keepRecord := agree_keepRecord hp

/-- A table that is read to its end without complaints. -/
theorem readTable_within (within : tolerance.Within tolerance') {found : Nat × Dict Object}
    {draft : Draft} (h : readTable tolerance file offset = .ok found draft)
    (hnotes : draft.notes = []) : readTable tolerance' file offset = .ok found draft := by
  have hagree := (lockstep_agree within.pedantic).readTable
    (fun word => agree_reading (refines_refl (Reader.expect word)))
    (agree_reading (Object.refines_readDict within))
  rw [readTable_eq] at h ⊢
  exact (hagree _ _ _ h hnotes).2

end CrossReference.Section
