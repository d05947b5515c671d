import CrossReference.Proofs.Object.Extension
import CrossReference.Proofs.Scan.Markers
import CrossReference.Proofs.Token.Header

set_option autoImplicit false

/-! # Markers as headers

A scan looks at single lines, and the reader of headers at the document from an offset on. On a
marker they agree: the reader finds the header that the scan found, unless the number is too great
(`Marker.located`), and a definition that is read there has its key (`Marker.key_eq`). -/

namespace CrossReference

open Bytes (Stops)

/-- The header with a key stands at an offset of a document. -/
def Located (file : Bytes) (k : Key) (offset : Nat) : Prop :=
  offset < file.length ∧ ∃ c, Reader.header ⟨offset, file.drop offset⟩ = .ok k c

namespace ScanIndex

/-- A header to which a text is added that the keyword `obj` can stand in front of. -/
def HeaderForm.extend (f : HeaderForm) {more : Bytes} (h : Stops Byte.isRegular more) :
    HeaderForm :=
  { f with tail := f.tail ++ more, ends := Bytes.stops_append f.ends h }

theorem HeaderForm.text_extend (f : HeaderForm) {more : Bytes} (h : Stops Byte.isRegular more) :
    (f.extend h).text = f.text ++ more := by
  simp only [text, ending, extend, List.append_assoc]

theorem stops_regular_behind_line (text : Bytes) :
    Stops Byte.isRegular (text.drop (Bytes.line text).length) := by
  refine (Bytes.stops_line text).mono fun b hb => ?_
  cases hend : Byte.isLineEnd b with
  | false => rfl
  | true =>
    rw [Byte.not_isRegular_of_isWhite (Byte.isWhite_of_isLineEnd hend)] at hb
    cases hb

theorem line_append_drop (text : Bytes) :
    Bytes.line text ++ text.drop (Bytes.line text).length = text := by
  unfold Bytes.line
  rw [Bytes.drop_length_takeWhile, List.takeWhile_append_dropWhile]

variable {file : Bytes} {k : Key} {offset : Nat}

/-- From a marker on, the whole document is a header, with what follows counted in. -/
theorem Marker.exists_form (h : Marker file k offset) :
    ∃ f : HeaderForm, f.text = file.drop offset ∧ f.key = k := by
  obtain ⟨before, blanks, text, rfl, _, _, rfl, f, hf, rfl⟩ := h
  refine ⟨f.extend (stops_regular_behind_line text), ?_, rfl⟩
  rw [HeaderForm.text_extend, hf, line_append_drop, List.drop_length_add_append, List.drop_left]

/-- A marker is read as a header, with the same key. -/
theorem Marker.located (h : Marker file k offset) (small : k.number ≤ Decimal.maxSigned64) :
    Located file k offset := by
  obtain ⟨f, htext, rfl⟩ := h.exists_form
  constructor
  · have hne := f.text_ne_nil
    rw [htext, ne_eq, List.drop_eq_nil_iff] at hne
    omega
  · rw [← htext]
    exact f.header_text small offset

/-- A definition that is read at a marker has the key of the marker. -/
theorem Marker.key_eq (h : Marker file k offset) {tolerance : Tolerance} {key : Key} {x : Object}
    {c : Cursor}
    (hread : Object.readDefinition tolerance ⟨offset, file.drop offset⟩ = .ok (key, x) c) :
    key = k := by
  obtain ⟨c', _, hheader, _⟩ := Object.exists_readDefinition_iff.mp ⟨c, hread⟩
  obtain ⟨f, htext, rfl⟩ := h.exists_form
  rw [← htext] at hheader
  by_cases small : f.key.number ≤ Decimal.maxSigned64
  · obtain ⟨c'', hform⟩ := f.header_text small offset
    rw [hform] at hheader
    cases hheader
    rfl
  · obtain ⟨e, c'', hform⟩ := f.header_text_of_lt (Nat.lt_of_not_le small) offset
    rw [hform] at hheader
    cases hheader

end ScanIndex

end CrossReference
