import CrossReference.Proofs.Object.Extension
import CrossReference.Proofs.Section.Steps

set_option autoImplicit false

/-! # Sections in a longer document

A section that was read to its end is read in the same way if the document goes on behind a line
feed. For a table the reason is that its trailer is still to come while its lines are read, so no
line is the last one of the document. `ReadsOn` says so for a reading that does not come upon the
end, and `Advances` carries this condition back to the readings before it. -/

namespace CrossReference

namespace Bytes

/-- A line that is not the last one takes as many bytes as before. -/
theorem lineLength_extend {text : Bytes} (h : text.drop (lineLength text) ≠ []) (more : Bytes) :
    lineLength (text ++ 0x0A :: more) = lineLength text := by
  have hle : (line text).length ≤ text.length := (List.takeWhile_prefix _).length_le
  unfold lineLength at h ⊢
  dsimp only at h ⊢
  rw [← List.drop_drop] at h
  rw [Token.line_extend, drop_append_of_le hle, lineEndLength_extend h]

theorem lineLength_le_length (text : Bytes) : lineLength text ≤ text.length := by
  have hle : (line text).length ≤ text.length := (List.takeWhile_prefix _).length_le
  have hend := lineEndLength_le (text.drop (line text).length)
  rw [List.length_drop] at hend
  unfold lineLength
  dsimp only
  omega

/-- A line feed that follows a text does not complete a pattern without line feeds. -/
theorem isPrefixOf_extend {pattern : Bytes} (hpattern : 0x0A ∉ pattern) (text more : Bytes) :
    pattern.isPrefixOf (text ++ 0x0A :: more) = pattern.isPrefixOf text := by
  induction pattern generalizing text with
  | nil => rfl
  | cons p pattern ih =>
    rw [List.mem_cons, not_or] at hpattern
    cases text with
    | nil =>
      have hp : (p == 0x0A) = false := by simpa using fun h : p = 0x0A => hpattern.1 h.symm
      simp [List.isPrefixOf, hp]
    | cons b text =>
      rw [List.cons_append, List.isPrefixOf, List.isPrefixOf, ih hpattern.2]

end Bytes

namespace Cursor

variable {more : Bytes} {c : Cursor}

theorem extend_drop {file : Bytes} {offset : Nat} (h : offset ≤ file.length) :
    (⟨offset, (file ++ 0x0A :: more).drop offset⟩ : Cursor) =
      (⟨offset, file.drop offset⟩ : Cursor).extend more := by
  unfold extend
  rw [Bytes.drop_append_of_le h]

theorem skipWhite_extend (h : c.skipWhite.rest ≠ []) :
    (c.extend more).skipWhite = c.skipWhite.extend more := by
  obtain ⟨position, rest⟩ := c
  obtain ⟨white, tail, rfl, hwhite, hstop⟩ := Bytes.exists_run Byte.isWhite rest
  have hlength : (⟨position, white ++ tail⟩ : Cursor).whiteLength = white.length := by
    unfold whiteLength
    rw [Bytes.takeWhile_run hwhite hstop]
  unfold skipWhite at h ⊢
  rw [hlength] at h ⊢
  have htail : tail ≠ [] := by
    unfold advance at h
    rwa [List.drop_left] at h
  have hlength' : ((⟨position, white ++ tail⟩ : Cursor).extend more).whiteLength =
      white.length := by
    unfold whiteLength extend
    rw [List.append_assoc,
      Bytes.takeWhile_run hwhite (Bytes.stops_append_of_ne_nil hstop htail)]
  rw [hlength', extend_advance (by simp)]

theorem skipLine_extend (h : c.skipLine.rest ≠ []) :
    (c.extend more).skipLine = c.skipLine.extend more := by
  have hlength : Bytes.lineLength (c.extend more).rest = Bytes.lineLength c.rest :=
    Bytes.lineLength_extend h more
  unfold skipLine
  rw [hlength, extend_advance (Bytes.lineLength_le_length c.rest)]

theorem line_extend : (c.extend more).line = c.line := Token.line_extend more c.rest

theorem peek?_extend (h : c.rest ≠ []) : (c.extend more).peek? = c.peek? := by
  unfold peek? extend
  cases hc : c.rest with
  | nil => exact absurd hc h
  | cons b rest => rfl

theorem atDigit_extend (h : c.rest ≠ []) : (c.extend more).atDigit = c.atDigit := by
  unfold atDigit
  rw [peek?_extend h]

theorem startsWith_extend {pattern : Bytes} (hpattern : 0x0A ∉ pattern) :
    (c.extend more).startsWith pattern = c.startsWith pattern :=
  Bytes.isPrefixOf_extend hpattern c.rest more

end Cursor

namespace Section

open Reader

variable {more : Bytes} {tolerance : Tolerance}

/-! ## Which section stands at an offset -/

theorem streamStart_extend (hstrict : tolerance.lenientStreams = false) {c c' : Cursor}
    (h : streamStart tolerance c = .ok true c') :
    streamStart tolerance (c.extend more) = .ok true (c'.extend more) := by
  obtain ⟨key, c₁, hheader, h⟩ := bind_eq_ok.mp h
  obtain ⟨d, c₂, hdict, h⟩ := bind_eq_ok.mp h
  refine bind_eq_ok.mpr ⟨key, _, extends_header c key c₁ hheader, ?_⟩
  refine bind_eq_ok.mpr ⟨d, _, Object.extends_readDict hstrict c₁ d c₂ hdict, ?_⟩
  by_cases hlooks : looksLikeStream tolerance d
  · rw [if_pos hlooks] at h ⊢
    obtain ⟨t, c₃, ht, h⟩ := bind_eq_ok.mp h
    have hend : t ≠ .eof := by
      rintro rfl
      cases h
    refine bind_eq_ok.mpr ⟨t, _, token_extend ht hend, ?_⟩
    cases hdec : decide (t = .reserved .stream) with
    | true =>
      rw [hdec] at h
      cases h
      rfl
    | false =>
      rw [hdec] at h
      cases h
  · rw [if_neg hlooks] at h
    cases h

theorem lt_length_of_probe {file : Bytes} {offset : Nat} {kind : SectionKind}
    (h : probe tolerance file offset = some kind) : offset < file.length := by
  unfold probe at h
  dsimp only at h
  rw [Option.ite_none_left_eq_some] at h
  have hne : file.drop offset ≠ [] := by simpa [Cursor.isEnd] using h.1
  rw [ne_eq, List.drop_eq_nil_iff] at hne
  omega

theorem probe_extend (hstrict : tolerance.lenientStreams = false) {file : Bytes} {offset : Nat}
    {kind : SectionKind} (h : probe tolerance file offset = some kind) :
    probe tolerance (file ++ 0x0A :: more) offset = some kind := by
  have hlt := lt_length_of_probe h
  unfold probe at h ⊢
  dsimp only at h ⊢
  rw [Cursor.extend_drop (Nat.le_of_lt hlt)]
  rw [Option.ite_none_left_eq_some] at h
  obtain ⟨_, h⟩ := h
  have hne : (⟨offset, file.drop offset⟩ : Cursor).skipWhite.rest ≠ [] := by
    intro hnil
    split at h
    · rename_i hstarts
      unfold Cursor.startsWith at hstarts
      rw [hnil] at hstarts
      cases hstarts
    · split at h
      · rename_i c' hstart
        obtain ⟨key, c₁, hheader, _⟩ := bind_eq_ok.mp hstart
        exact rest_ne_nil_of_header hheader hnil
      · cases h
  rw [if_neg (by simp [Cursor.isEnd, Cursor.extend]), Cursor.skipWhite_extend hne,
    Cursor.startsWith_extend (by decide)]
  split at h
  · rename_i hstarts
    rw [if_pos hstarts]
    exact h
  · rename_i hstarts
    rw [if_neg hstarts]
    split at h
    · rename_i c' hstart
      rw [streamStart_extend hstrict hstart]
      exact h
    · cases h

/-! ## Reading the lines of a table -/

/-- The same draft in a document that goes on behind a line feed. -/
def Draft.extend (more : Bytes) (d : Draft) : Draft := { d with cursor := d.cursor.extend more }

/-- A reading that never goes back. -/
def Advances {α : Type} (x : DraftReader α) : Prop :=
  ∀ d a d', x d = .ok a d' → d'.cursor.rest.length ≤ d.cursor.rest.length

/-- A reading whose results stay the same if the document goes on, unless it comes upon the end. -/
def ReadsOn {α : Type} (more : Bytes) (x : DraftReader α) : Prop :=
  ∀ d a d', x d = .ok a d' → d'.cursor.rest ≠ [] → x (d.extend more) = .ok a (d'.extend more)

theorem ne_nil_of_advances {α : Type} {x : DraftReader α} (hx : Advances x) {d d' : Draft} {a : α}
    (h : x d = .ok a d') (hne : d'.cursor.rest ≠ []) : d.cursor.rest ≠ [] := by
  intro hnil
  have hle := hx d a d' h
  rw [hnil, List.length_nil, Nat.le_zero, List.length_eq_zero_iff] at hle
  exact hne hle

theorem Advances.bind {α β : Type} {x : DraftReader α} {f : α → DraftReader β}
    (hx : Advances x) (hf : ∀ a, Advances (f a)) : Advances (x >>= f) := by
  intro d b d' h
  obtain ⟨a, d₁, hxa, hfa⟩ := bind_eq_ok.mp h
  exact Nat.le_trans (hf a d₁ b d' hfa) (hx d a d₁ hxa)

theorem ReadsOn.bind {α β : Type} {x : DraftReader α} {f : α → DraftReader β}
    (hx : ReadsOn more x) (hf : ∀ a, ReadsOn more (f a)) (hadvances : ∀ a, Advances (f a)) :
    ReadsOn more (x >>= f) := by
  intro d b d' h hne
  obtain ⟨a, d₁, hxa, hfa⟩ := bind_eq_ok.mp h
  exact bind_eq_ok.mpr ⟨a, d₁.extend more,
    hx d a d₁ hxa (ne_nil_of_advances (hadvances a) hfa hne), hf a d₁ b d' hfa hne⟩

/-! ### Single steps -/

theorem advances_pure {α : Type} (a : α) : Advances (pure a) := by
  intro d a' d' h
  cases h
  exact Nat.le_refl _

theorem readsOn_pure {α : Type} (a : α) : ReadsOn more (pure a) := by
  intro d a' d' h _
  cases h
  rfl

theorem readsOn_throw {α : Type} (e : Error) : ReadsOn more (throw e : DraftReader α) := by
  intro d a d' h
  cases h

theorem advances_complain (offset : Nat) (message : String) :
    Advances (complain offset message) := by
  intro d a d' h
  cases h
  exact Nat.le_refl _

theorem readsOn_complain (offset : Nat) (message : String) :
    ReadsOn more (complain offset message) := by
  intro d a d' h _
  cases h
  rfl

theorem advances_keepRecord (pedantic : Bool) (number : Nat) (c : Cursor) :
    Advances (keepRecord pedantic number c) := by
  unfold keepRecord
  split <;> (intro d a d' h; cases h; exact Nat.le_refl _)

theorem readsOn_keepRecord (pedantic : Bool) (number : Nat) (c : Cursor) :
    ReadsOn more (keepRecord pedantic number c) := by
  unfold keepRecord
  split <;> (intro d a d' h _; cases h; rfl)

theorem length_advance_le (c : Cursor) (n : Nat) : (c.advance n).rest.length ≤ c.rest.length :=
  (List.drop_sublist n c.rest).length_le

theorem advances_skipLine : Advances (move Cursor.skipLine) := by
  intro d a d' h
  cases h
  exact length_advance_le d.cursor _

theorem readsOn_skipLine : ReadsOn more (move Cursor.skipLine) := by
  intro d a d' h hne
  cases h
  have hcursor : (d.cursor.extend more).skipLine = d.cursor.skipLine.extend more :=
    Cursor.skipLine_extend hne
  change (.ok () { d.extend more with cursor := (d.cursor.extend more).skipLine } :
    EStateM.Result Error Draft Unit) = _
  rw [hcursor]
  rfl

theorem skipToText_extend {d : Draft} (h : d.cursor.skipWhite.rest ≠ []) :
    skipToText (d.extend more) = .ok (d.cursor.skipWhite.extend more)
      (Draft.extend more { d with cursor := d.cursor.skipWhite }) := by
  rw [skipToText_eq]
  change (.ok (d.cursor.extend more).skipWhite
    { d.extend more with cursor := (d.cursor.extend more).skipWhite } :
    EStateM.Result Error Draft Cursor) = _
  rw [Cursor.skipWhite_extend h]
  rfl

/-- No step of the reader of tables goes back, and so the whole reader never does. -/
theorem lockstep_advances (pedantic : Bool) : Lockstep pedantic pedantic fun x _ => Advances x where
  pure := advances_pure
  throw _ d _ _ h := by cases h
  bind := Advances.bind
  rounds hloop d a d' h := hloop _ d a d' h
  skipToText d a d' h := by
    rw [skipToText_eq] at h
    cases h
    exact length_advance_le d.cursor _
  skipLine := advances_skipLine
  complain := advances_complain
  keepRecord := advances_keepRecord pedantic

/-- A step that looks at the place behind white space looks at the same bytes in the longer
    document. -/
theorem readsOn_skipToText_bind {β : Type} {f : Cursor → DraftReader β}
    (hsame : ∀ c : Cursor, c.rest ≠ [] → f (c.extend more) = f c)
    (hf : ∀ c, ReadsOn more (f c)) (hadvances : ∀ c, Advances (f c)) :
    ReadsOn more (skipToText >>= f) := by
  intro d b d' h hne
  obtain ⟨c, d₁, hskip, hfc⟩ := bind_eq_ok.mp h
  rw [skipToText_eq] at hskip
  cases hskip
  have htext : d.cursor.skipWhite.rest ≠ [] := ne_nil_of_advances (hadvances _) hfc hne
  refine bind_eq_ok.mpr ⟨_, _, skipToText_extend htext, ?_⟩
  rw [hsame _ htext]
  exact hf _ _ b d' hfc hne

/-! ### Records -/

theorem readsOn_readRecord (pedantic : Bool) (number : Nat) (c : Cursor) :
    ReadsOn more (readRecord pedantic number c) := by
  rw [readRecord_eq]
  refine readsOn_skipLine.bind (fun _ => ?_) fun _ => ?_
  · split
    · exact readsOn_throw _
    · exact readsOn_keepRecord pedantic number c
  · split
    · exact (lockstep_advances pedantic).throw _
    · exact advances_keepRecord pedantic number c

theorem readsOn_readRecords (pedantic : Bool) (start count done left : Nat) :
    ReadsOn more (readRecords pedantic start count done left) := by
  have steps := lockstep_advances pedantic
  induction left generalizing done with
  | zero => exact readsOn_pure ()
  | succ left ih =>
    refine readsOn_skipToText_bind ?_ ?_ ?_
    · intro c hc
      rw [Cursor.atDigit_extend hc]
      unfold readRecord
      rw [Cursor.line_extend]
      rfl
    · intro c
      split
      · exact (readsOn_readRecord pedantic _ c).bind (fun _ => ih (done + 1))
          fun _ => steps.readRecords start count _ left
      · exact readsOn_complain _ _
    · intro c
      split
      · exact Advances.bind (steps.readRecord _ c) fun _ => steps.readRecords start count _ left
      · exact advances_complain _ _

/-! ### Subsections -/

theorem readsOn_readAnnounced (pedantic : Bool) (c : Cursor) :
    ReadsOn more (readAnnounced pedantic c) := by
  unfold readAnnounced
  split
  · exact readsOn_readRecords pedantic _ _ _ _
  · exact readsOn_complain _ _

theorem length_skipLine_lt {c : Cursor} (h : c.rest ≠ []) :
    c.skipLine.rest.length < c.rest.length := by
  have hpos := Bytes.lineLength_pos h
  have hle := Bytes.lineLength_le_length c.rest
  change (c.rest.drop (Bytes.lineLength c.rest)).length < c.rest.length
  rw [List.length_drop]
  omega

/-- With as many rounds as there are bytes the subsections are read to their end, so more rounds
    make no difference. -/
theorem readSubsections_extend {pedantic : Bool} {rounds rounds' : Nat} {d d' : Draft}
    (h : readSubsections pedantic rounds d = .ok () d') (hne : d'.cursor.rest ≠ [])
    (henough : d.cursor.rest.length ≤ rounds) (hrounds : rounds ≤ rounds') :
    readSubsections pedantic rounds' (d.extend more) = .ok () (d'.extend more) := by
  have steps := lockstep_advances pedantic
  induction rounds generalizing d rounds' with
  | zero =>
    cases h
    exact absurd (List.length_eq_zero_iff.mp (Nat.le_zero.mp henough)) hne
  | succ rounds ih =>
    obtain ⟨left, rfl⟩ : ∃ left, rounds' = left + 1 := ⟨rounds' - 1, by omega⟩
    rw [readSubsections_succ] at h ⊢
    obtain ⟨c, d₁, hskip, h⟩ := bind_eq_ok.mp h
    rw [skipToText_eq] at hskip
    cases hskip
    have htext : d.cursor.skipWhite.rest ≠ [] := by
      split at h
      · exact ne_nil_of_advances (advances_skipLine.bind fun _ =>
          Advances.bind (steps.readAnnounced _) fun _ => steps.readSubsections rounds) h hne
      · exact ne_nil_of_advances (advances_pure ()) h hne
    refine bind_eq_ok.mpr ⟨_, _, skipToText_extend htext, ?_⟩
    rw [Cursor.atDigit_extend htext]
    split at h
    · rename_i hdigit
      rw [if_pos hdigit]
      obtain ⟨_, d₂, hline, h⟩ := bind_eq_ok.mp h
      obtain ⟨_, d₃, hrecords, h⟩ := bind_eq_ok.mp h
      have hne₃ : d₃.cursor.rest ≠ [] :=
        ne_nil_of_advances (steps.readSubsections rounds) h hne
      have hne₂ : d₂.cursor.rest ≠ [] :=
        ne_nil_of_advances (steps.readAnnounced _) hrecords hne₃
      -- a round takes a line at least, so the rounds left are still enough
      have hshort : d₃.cursor.rest.length ≤ rounds := by
        have hrest := steps.readAnnounced _ d₂ _ d₃ hrecords
        have hwhite : d.cursor.skipWhite.rest.length ≤ d.cursor.rest.length :=
          length_advance_le d.cursor _
        have hlt := length_skipLine_lt htext
        cases hline
        dsimp only at hrest
        omega
      refine bind_eq_ok.mpr ⟨_, _, readsOn_skipLine _ _ _ hline hne₂, ?_⟩
      refine bind_eq_ok.mpr ⟨(), d₃.extend more, ?_, ih h hshort (by omega)⟩
      have hsame : readAnnounced pedantic (d.cursor.skipWhite.extend more) =
          readAnnounced pedantic d.cursor.skipWhite := by
        unfold readAnnounced
        rw [Cursor.line_extend]
        rfl
      rw [hsame]
      exact readsOn_readAnnounced pedantic _ d₂ _ d₃ hrecords hne₃
    · rename_i hdigit
      rw [if_neg hdigit]
      cases h
      rfl

/-! ### The trailer -/

theorem rest_ne_nil_of_findTrailer {rounds : Nat} {d d' : Draft} {offset : Nat}
    (h : findTrailer rounds d = .ok offset d') : d.cursor.rest ≠ [] := by
  intro hnil
  cases rounds with
  | zero => cases h
  | succ rounds =>
    obtain ⟨c, d₁, hskip, h⟩ := bind_eq_ok.mp h
    rw [skipToText_eq] at hskip
    cases hskip
    have hpeek : d.cursor.skipWhite.peek? = none := by
      unfold Cursor.skipWhite Cursor.advance Cursor.peek?
      rw [hnil, List.drop_nil]
      rfl
    rw [hpeek] at h
    cases h

/-- A reading of tokens or objects in a draft. -/
theorem reading_extend {α : Type} {r : Reader α} (hr : Extends more r) {d d' : Draft} {a : α}
    (h : reading r d = .ok a d') : reading r (d.extend more) = .ok a (d'.extend more) := by
  unfold reading at h ⊢
  split at h
  · rename_i a' c hread
    cases h
    rw [Draft.extend, hr _ _ _ hread]
    rfl
  · cases h

theorem findTrailer_extend {rounds rounds' : Nat} {d d' : Draft} {offset : Nat}
    (h : findTrailer rounds d = .ok offset d') (hrounds : rounds ≤ rounds') :
    findTrailer rounds' (d.extend more) = .ok offset (d'.extend more) := by
  induction rounds generalizing d rounds' with
  | zero => cases h
  | succ rounds ih =>
    obtain ⟨left, rfl⟩ : ∃ left, rounds' = left + 1 := ⟨rounds' - 1, by omega⟩
    obtain ⟨c, d₁, hskip, h⟩ := bind_eq_ok.mp h
    rw [skipToText_eq] at hskip
    cases hskip
    have htext : d.cursor.skipWhite.rest ≠ [] := by
      intro hnil
      unfold Cursor.peek? at h
      rw [hnil] at h
      cases h
    refine bind_eq_ok.mpr ⟨_, _, skipToText_extend htext, ?_⟩
    rw [Cursor.peek?_extend htext]
    generalize d.cursor.skipWhite.peek? = next at h
    split at h
    · cases h
    · cases h
      rfl
    · -- a stray line is not the last one, since the trailer is found behind it
      obtain ⟨_, d₂, hline, h⟩ := bind_eq_ok.mp h
      obtain ⟨_, d₃, hcomplain, h⟩ := bind_eq_ok.mp h
      have hne₃ := rest_ne_nil_of_findTrailer h
      have hne₂ := ne_nil_of_advances (advances_complain _ _) hcomplain hne₃
      refine bind_eq_ok.mpr ⟨_, _, readsOn_skipLine _ _ _ hline hne₂, ?_⟩
      refine bind_eq_ok.mpr ⟨(), d₃.extend more, ?_, ih h (by omega)⟩
      rw [Cursor.line_extend]
      exact readsOn_complain _ _ d₂ _ d₃ hcomplain hne₃

theorem readTrailer_extend (hstrict : tolerance.lenientStreams = false) {d d' : Draft}
    {found : Nat × Dict Object} (h : readTrailer tolerance d = .ok found d') :
    readTrailer tolerance (d.extend more) = .ok found (d'.extend more) := by
  obtain ⟨offset, d₁, hfind, h⟩ := bind_eq_ok.mp h
  obtain ⟨_, d₂, hexpect, h⟩ := bind_eq_ok.mp h
  obtain ⟨entries, d₃, hdict, h⟩ := bind_eq_ok.mp h
  have hrounds : d.cursor.rest.length ≤ (d.extend more).cursor.rest.length := by
    change d.cursor.rest.length ≤ (d.cursor.rest ++ 0x0A :: more).length
    rw [List.length_append]
    omega
  refine bind_eq_ok.mpr ⟨offset, d₁.extend more, findTrailer_extend hfind hrounds, ?_⟩
  refine bind_eq_ok.mpr ⟨_, d₂.extend more, reading_extend (extends_expect _) hexpect, ?_⟩
  refine bind_eq_ok.mpr
    ⟨entries, d₃.extend more, reading_extend (Object.extends_readDict hstrict) hdict, ?_⟩
  cases h
  rfl

/-! ## Whole sections -/

/-- A table that was read up to its trailer. -/
theorem readTable_extend (hstrict : tolerance.lenientStreams = false) {file : Bytes}
    {offset : Nat} (hoffset : offset ≤ file.length) {found : Nat × Dict Object} {draft : Draft}
    (h : readTable tolerance file offset = .ok found draft) :
    readTable tolerance (file ++ 0x0A :: more) offset = .ok found (draft.extend more) := by
  unfold readTable at h ⊢
  dsimp only at h ⊢
  rw [Cursor.extend_drop hoffset]
  obtain ⟨_, d₁, hexpect, h⟩ := bind_eq_ok.mp h
  obtain ⟨_, d₂, hsubsections, h⟩ := bind_eq_ok.mp h
  -- the trailer is still to come behind the subsections
  have hne : d₂.cursor.rest ≠ [] := by
    obtain ⟨_, _, hfind, _⟩ := bind_eq_ok.mp h
    exact rest_ne_nil_of_findTrailer hfind
  have hrounds : d₁.cursor.rest.length ≤ (d₁.extend more).cursor.rest.length := by
    change d₁.cursor.rest.length ≤ (d₁.cursor.rest ++ 0x0A :: more).length
    rw [List.length_append]
    omega
  refine bind_eq_ok.mpr ⟨(), d₁.extend more, reading_extend (extends_expect _) hexpect, ?_⟩
  refine bind_eq_ok.mpr ⟨(), d₂.extend more, ?_, readTrailer_extend hstrict h⟩
  exact readSubsections_extend hsubsections hne (Nat.le_refl _) hrounds

/-- A stream that was decoded to its end. -/
theorem readStream_extend (hstrict : tolerance.lenientStreams = false) {file : Bytes}
    {offset : Nat} {s : StreamSection} {notes : List Diagnostic}
    (h : readStream tolerance file offset = (.ok s, notes)) :
    readStream tolerance (file ++ 0x0A :: more) offset = (.ok s, notes) := by
  unfold readStream at h ⊢
  cases hat : streamAt tolerance file offset with
  | error e =>
    rw [hat] at h
    cases h
  | ok found =>
    obtain ⟨key, entries, data⟩ := found
    have hextend : streamAt tolerance (file ++ 0x0A :: more) offset = .ok (key, entries, data) := by
      unfold streamAt Cursor.seek at hat ⊢
      by_cases hoffset : offset ≤ file.length
      · have hoffset' : offset ≤ (file ++ 0x0A :: more).length := by
          rw [List.length_append]
          omega
        rw [if_pos hoffset] at hat
        rw [if_pos hoffset', Cursor.extend_drop hoffset]
        dsimp only [Except.bind, bind] at hat ⊢
        split at hat
        · cases hat
        · rename_i hread
          cases hat
          obtain ⟨c, hread'⟩ : ∃ c, Object.readDefinition tolerance
              ((⟨offset, file.drop offset⟩ : Cursor).extend more) =
                .ok (key, .stream entries data) c :=
            Object.readDefinition_extend hstrict hread
          rw [hread']
          rfl
        · cases hat
      · rw [if_neg hoffset] at hat
        cases hat
    rw [hextend]
    rw [hat] at h
    exact h

end Section

end CrossReference
