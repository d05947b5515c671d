import CrossReference.Proofs.Section.Tolerance
import CrossReference.Proofs.Section.Written
import CrossReference.Proofs.Scan.Grammar
import CrossReference.Proofs.Token.Spelled

set_option autoImplicit false

/-! # The quick look and the readers

A link is followed if a quick look at its offset finds a section there, and the section is then read
by the reader for its form. The two agree but for two things (`probe_agrees`). The quick look takes
a word that only begins like the keyword `xref` for a table, and the reader of tables wants the
keyword. The reader of streams passes over a comment between the dictionary and the keyword
`stream`, and the quick look does not find the stream behind one. -/

namespace CrossReference

open Bytes (Stops)

/-! ## Headers -/

namespace Reader

/-- White space in front of a header only counts for the place. -/
theorem header_skipWhite {c c' : Cursor} {k : Key} (h : header c = .ok k c') :
    header c.skipWhite = .ok k c' := by
  obtain ⟨position, text⟩ := c
  obtain ⟨white, tail, rfl, hwhite, hstop⟩ := Bytes.exists_run Byte.isWhite text
  have hinteger : integer ⟨position, white ++ tail⟩ =
      integer ⟨position + white.length, tail⟩ := bind_of_eq (token_white hwhite position tail)
  rw [Section.skipWhite_run hwhite hstop]
  unfold header at h ⊢
  dsimp only at h ⊢
  rw [bind_of_eq hinteger] at h
  split at h
  · cases h
  · rename_i number generation c₁ hparts
    rw [hparts]
    dsimp only
    split at h
    · exact h
    · cases h

/-- The keyword `xref` is no header. -/
theorem not_startsWith_of_header {c c' : Cursor} {k : Key} (h : header c = .ok k c') :
    c.startsWith Reserved.xref.spelling = false := by
  obtain ⟨f, g, gap, tail, hrest, _⟩ := header_eq_ok h
  obtain ⟨b, hb, hclass⟩ := f.head_text (g.text ++ (gap ++ (Reserved.obj.spelling ++ tail)))
  cases hstarts : c.startsWith Reserved.xref.spelling with
  | false => rfl
  | true =>
    obtain ⟨more, hmore⟩ := List.isPrefixOf_iff_prefix.mp hstarts
    rw [← hrest, ← hmore] at hb
    obtain rfl : 0x78 = b := Option.some.inj hb
    exact absurd hclass (by decide)

end Reader

namespace Section

variable {tolerance : Tolerance} {file : Bytes} {offset : Nat}

/-! ## Tables -/

/-- The quick look takes for a table whatever begins like the keyword. -/
theorem probe_eq_table :
    probe tolerance file offset = some .table ↔
      Reserved.xref.spelling <+: (file.drop offset).dropWhile Byte.isWhite := by
  have hskip : (⟨offset, file.drop offset⟩ : Cursor).skipWhite.rest =
      (file.drop offset).dropWhile Byte.isWhite := Bytes.drop_length_takeWhile _ _
  unfold probe
  dsimp only
  split
  · rename_i hend
    have hnil : file.drop offset = [] := by simpa [Cursor.isEnd] using hend
    rw [hnil]
    simp [Reserved.spelling, ascii]
  · unfold Cursor.startsWith
    rw [hskip]
    split
    · rename_i hstarts
      simpa using hstarts
    · rename_i hstarts
      rw [List.isPrefixOf_iff_prefix] at hstarts
      split <;> simp [hstarts]

/-- The keyword of a table is read exactly if it is the first word of the text. -/
theorem expect_xref_iff {c : Cursor} :
    (∃ c', Reader.expect Reserved.xref.spelling c = .ok () c') ↔
      ScanIndex.beginsTable (c.rest.dropWhile Byte.isWhite) = true := by
  rw [ScanIndex.beginsTable_iff]
  constructor
  · rintro ⟨c', h⟩
    obtain ⟨white, rest, hrest, hwhite, hstop, _⟩ := Reader.expect_eq_ok.mp h
    have hkeyword : Stops Byte.isWhite (Reserved.xref.spelling ++ rest) :=
      Bytes.stops_cons.mpr (by decide)
    exact ⟨rest, by rw [hrest, Bytes.dropWhile_run hwhite hkeyword], hstop⟩
  · rintro ⟨rest, hrest, hstop⟩
    refine ⟨_, Reader.expect_eq_ok.mpr ⟨c.rest.takeWhile Byte.isWhite, rest, ?_,
      List.all_eq_true.mp List.all_takeWhile, hstop, rfl⟩⟩
    rw [← hrest, List.takeWhile_append_dropWhile]

/-! ## Streams -/

/-- Only a dictionary can be that of a stream. -/
theorem eq_dictOpen_of_stream {nesting : Nat} {t : Token} {c c' : Cursor} {entries : Dict Object}
    {data : Bytes} (h : Object.ofToken tolerance nesting t c = .ok (.stream entries data) c') :
    t = .dictOpen := by
  cases t with
  | dictOpen => rfl
  | integer value =>
    have hother : Reader.integerOrReference value c = .ok (.stream entries data) c' := by
      cases nesting <;> exact h
    unfold Reader.integerOrReference at hother
    split at hother <;> cases hother
  | arrayOpen =>
    cases nesting with
    | zero => cases h
    | succ left =>
      obtain ⟨_, _, _, h⟩ := bind_eq_ok.mp h
      cases h
  | _ => cases nesting <;> cases h

/-- What a stream that is read begins with: a dictionary, and the keyword `stream` behind it. -/
theorem dict_of_read_stream {c c' : Cursor} {entries : Dict Object} {data : Bytes}
    (h : Object.read tolerance c = .ok (.stream entries data) c') :
    ∃ c₁ c₂, Object.readDict tolerance c = .ok entries c₁ ∧
      Reader.significant c₁ = .ok (.reserved .stream) c₂ := by
  obtain ⟨t, c₁, hread, h⟩ := bind_eq_ok.mp h
  obtain rfl := eq_dictOpen_of_stream h
  generalize hn : tolerance.maxNesting = nesting at h
  cases nesting with
  | zero => cases h
  | succ left =>
    obtain ⟨d, c₂, hd, h⟩ := bind_eq_ok.mp h
    unfold Reader.dictOrStream at h
    split at h
    · rename_i c₃ hstream
      split at h
      · cases h
        refine ⟨c₂, c₃, bind_eq_ok.mpr ⟨_, c₁, hread, ?_⟩, hstream⟩
        rw [hn]
        exact hd
      · cases h
    · cases h

/-- What a cross-reference stream that is read begins with. -/
theorem start_of_readStream {s : StreamSection} {notes : List Diagnostic}
    (h : readStream tolerance file offset = (.ok s, notes)) :
    looksLikeStream tolerance s.entries = true ∧
    ∃ k c₁ c₂ c₃, Reader.header ⟨offset, file.drop offset⟩ = .ok k c₁ ∧
      Object.readDict tolerance c₁ = .ok s.entries c₂ ∧
      Reader.significant c₂ = .ok (.reserved .stream) c₃ := by
  unfold readStream at h
  split at h
  · cases h
  rename_i key entries data hat
  split at h
  · cases h
  rename_i notes' haccept
  split at h
  · cases h
  cases h
  obtain ⟨_, c, hread⟩ := streamAt_eq_ok.mp hat
  obtain ⟨c₁, c', hheader, hobject⟩ := Object.exists_readDefinition_iff.mp ⟨c, hread⟩
  obtain ⟨c₂, c₃, hdict, hstream⟩ := dict_of_read_stream hobject
  exact ⟨looksLikeStream_of_acceptType haccept, key, c₁, c₂, c₃, hheader, hdict, hstream⟩

/-- Whether the next token is a comment. -/
def AtComment (c : Cursor) : Prop := ∃ text c', Reader.token c = .ok (.comment text) c'

/-- The quick look at a place that holds a header and the dictionary of a cross-reference stream. -/
theorem probe_of_start {k : Key} {c₁ c₂ c₃ : Cursor} {entries : Dict Object}
    (hlooks : looksLikeStream tolerance entries = true)
    (hheader : Reader.header ⟨offset, file.drop offset⟩ = .ok k c₁)
    (hdict : Object.readDict tolerance c₁ = .ok entries c₂)
    (hstream : Reader.significant c₂ = .ok (.reserved .stream) c₃) :
    (probe tolerance file offset = some .stream ↔ ¬AtComment c₂) := by
  have hin : ¬(⟨offset, file.drop offset⟩ : Cursor).isEnd = true := by
    simpa [Cursor.isEnd] using Reader.rest_ne_nil_of_header hheader
  have hheader' := Reader.header_skipWhite hheader
  unfold probe
  dsimp only
  rw [if_neg hin, Reader.not_startsWith_of_header hheader', if_neg Bool.false_ne_true]
  -- behind the dictionary the quick look takes the next token as it is
  have hlook : ∀ t c, Reader.token c₂ = .ok t c →
      streamStart tolerance (⟨offset, file.drop offset⟩ : Cursor).skipWhite =
        .ok (decide (t = .reserved .stream)) c := by
    intro t c htoken
    refine bind_eq_ok.mpr ⟨k, c₁, hheader', bind_eq_ok.mpr ⟨entries, c₂, hdict, ?_⟩⟩
    rw [if_pos hlooks]
    exact bind_eq_ok.mpr ⟨t, c, htoken, rfl⟩
  rcases Reader.token_of_significant hstream Token.noConfusion with ⟨text, c, hcomment⟩ | hplain
  · have hat : AtComment c₂ := ⟨text, c, hcomment⟩
    rw [hlook _ c hcomment]
    simp [hat]
  · have hat : ¬AtComment c₂ := by
      rintro ⟨text, c, hcomment⟩
      cases hplain.symm.trans hcomment
    rw [hlook _ c₃ hplain]
    simp [hat]

/-- The quick look finds a table at whatever begins like the keyword, and the reader of tables reads
    the keyword if it is the first word. Where a cross-reference stream is read, the quick look
    finds it unless a comment stands behind its dictionary. -/
theorem probe_agrees (tolerance : Tolerance) (file : Bytes) (offset : Nat) :
    (probe tolerance file offset = some .table ↔
      Reserved.xref.spelling <+: (file.drop offset).dropWhile Byte.isWhite) ∧
    ((∃ c, Reader.expect Reserved.xref.spelling ⟨offset, file.drop offset⟩ = .ok () c) ↔
      ScanIndex.beginsTable ((file.drop offset).dropWhile Byte.isWhite) = true) ∧
    ∀ s notes, readStream tolerance file offset = (.ok s, notes) →
      ∃ k c₁ c₂, Reader.header ⟨offset, file.drop offset⟩ = .ok k c₁ ∧
        Object.readDict tolerance c₁ = .ok s.entries c₂ ∧
        (probe tolerance file offset = some .stream ↔ ¬AtComment c₂) := by
  refine ⟨probe_eq_table, expect_xref_iff, fun s notes h => ?_⟩
  obtain ⟨hlooks, k, c₁, c₂, c₃, hheader, hdict, hstream⟩ := start_of_readStream h
  exact ⟨k, c₁, c₂, hheader, hdict, probe_of_start hlooks hheader hdict hstream⟩

/-- A cross-reference stream with a text between its dictionary and the keyword `stream`. -/
def sampleStream (gap : Bytes) : Bytes :=
  ascii "1 0 obj<</Type/XRef/Size 2/W[1 1 1]/Index[1 1]/Length 3>>" ++ gap ++
    ascii "\nstream\n" ++ [0x01, 0x00, 0x00] ++ ascii "endstream\nendobj"

theorem readStream_sampleStream {gap : Bytes} (h : gap = [] ∨ gap = ascii "%c") :
    ∃ s, readStream Options.strict.toTolerance (sampleStream gap) 0 = (.ok s, []) := by
  have hread : (readStream Options.strict.toTolerance (sampleStream gap) 0).1.isOk = true ∧
      (readStream Options.strict.toTolerance (sampleStream gap) 0).2.isEmpty = true := by
    rcases h with rfl | rfl <;> decide +kernel
  obtain ⟨hok, hnotes⟩ := hread
  cases hs : (readStream Options.strict.toTolerance (sampleStream gap) 0).1 with
  | error e =>
    rw [hs] at hok
    cases hok
  | ok s => exact ⟨s, Prod.ext hs (List.isEmpty_iff.mp hnotes)⟩

theorem sampleStream_agrees :
    ∃ s k c₁ c₂, readStream Options.strict.toTolerance (sampleStream []) 0 = (.ok s, []) ∧
      Reader.header ⟨0, sampleStream []⟩ = .ok k c₁ ∧
      Object.readDict Options.strict.toTolerance c₁ = .ok s.entries c₂ ∧
      (probe Options.strict.toTolerance (sampleStream []) 0 = some .stream ↔ ¬AtComment c₂) := by
  obtain ⟨s, hs⟩ := readStream_sampleStream (Or.inl rfl)
  obtain ⟨k, c₁, c₂, hheader, hdict, hprobe⟩ :=
    (probe_agrees Options.strict.toTolerance (sampleStream []) 0).2.2 s [] hs
  exact ⟨s, k, c₁, c₂, hs, hheader, hdict, hprobe⟩

/-- A word that begins like the keyword is taken for a table and cannot be read as one, and a stream
    with a comment behind its dictionary can be read and is not found. -/
theorem probe_disagrees :
    (probe Options.strict.toTolerance (ascii "xrefs") 0 = some .table ∧
      ∀ c, Reader.expect Reserved.xref.spelling ⟨0, ascii "xrefs"⟩ ≠ .ok () c) ∧
    (∃ s, readStream Options.strict.toTolerance (sampleStream (ascii "%c")) 0 = (.ok s, [])) ∧
    probe Options.strict.toTolerance (sampleStream (ascii "%c")) 0 = none := by
  refine ⟨⟨by decide +kernel, fun c h => ?_⟩, readStream_sampleStream (Or.inr rfl),
    by decide +kernel⟩
  cases h

end Section

end CrossReference
