import CrossReference.Object.Reader
import CrossReference.Proofs.Bytes.Search
import Mathlib.Order.Bounds.Defs

set_option autoImplicit false

/-! # Searching ahead

The search from a place on goes through a long document in pieces that overlap. What it finds is
what the plain search finds: the least offset at which the pattern stands, of those from which on it
lies within the limit (`find?_eq_least`). -/

namespace CrossReference

open Bytes (stride)

variable {pattern : Bytes}

/-- The offsets at which a pattern stands in a document, all of it within so many bytes from a
    position on and inside the document. -/
def occurrences (file pattern : Bytes) (position limit : Nat) : Set Nat :=
  {offset | position ≤ offset ∧ pattern <+: file.drop offset ∧
    offset + pattern.length ≤ position + min limit (file.length - position)}

/-- An index in what is searched, and the offset that it stands for. -/
theorem mem_occurrences (hne : pattern ≠ []) (file : Bytes) (position limit i : Nat) :
    pattern <+: ((file.drop position).take limit).drop i ↔
      position + i ∈ occurrences file pattern position limit := by
  have hpos : 0 < pattern.length := List.length_pos_iff.mpr hne
  rw [Bytes.prefix_drop_take hne, List.drop_drop]
  constructor
  · rintro ⟨hoccurs, hlimit⟩
    have hinside := hoccurs.length_le
    rw [List.length_drop] at hinside
    exact ⟨Nat.le_add_right _ _, hoccurs, by omega⟩
  · rintro ⟨_, hoccurs, hend⟩
    exact ⟨hoccurs, by omega⟩

namespace Cursor

theorem find?_eq_first? (hne : pattern ≠ []) (c : Cursor) (limit : Nat) :
    c.find? pattern limit = (Bytes.first? pattern (c.rest.take limit)).map (c.position + ·) :=
  Bytes.firstInPieces_eq hne c.position (c.rest.take limit)

/-- Searching ahead equals the plain search, for every document, place, pattern and limit: it finds
    the least offset at which the pattern stands, all of it within the limit and the document, and
    nothing exactly if there is none. It is a question about a place and moves nothing: a reader
    that finds no end of stream data is still where it began to search. -/
theorem find?_eq_least (hne : pattern ≠ []) (file : Bytes) (position limit : Nat) :
    let c : Cursor := ⟨position, file.drop position⟩
    (∀ offset, c.find? pattern limit = some offset ↔
      IsLeast (occurrences file pattern position limit) offset) ∧
    (c.find? pattern limit = none ↔
      ∀ offset, offset ∉ occurrences file pattern position limit) ∧
    (c.find? Reserved.endStream.spelling limit = none →
      Reader.searchedData limit c = .error (.malformed position .noEndStream) c) := by
  intro c
  refine ⟨fun offset => ?_, ?_, fun hnone => ?_⟩
  · rw [find?_eq_first? hne, Option.map_eq_some_iff]
    simp only [Bytes.first?_eq_some hne, Bytes.FirstAt, c, mem_occurrences hne]
    constructor
    · rintro ⟨i, ⟨hi, hbefore⟩, rfl⟩
      refine ⟨hi, fun other hother => Nat.le_of_not_lt fun hlt => ?_⟩
      have hfrom : position ≤ other := hother.1
      refine hbefore (other - position) (by omega) ?_
      rwa [Nat.add_sub_cancel' hfrom]
    · rintro ⟨hoffset, hleast⟩
      have hfrom : position ≤ offset := hoffset.1
      refine ⟨offset - position, ⟨?_, fun j hj hother => ?_⟩, Nat.add_sub_cancel' hfrom⟩
      · rwa [Nat.add_sub_cancel' hfrom]
      · have hle : offset ≤ position + j := hleast hother
        omega
  · rw [find?_eq_first? hne, Option.map_eq_none_iff, Bytes.first?_eq_none hne]
    simp only [c, mem_occurrences hne]
    constructor
    · intro hnone offset hoffset
      have hfrom : position ≤ offset := hoffset.1
      refine hnone (offset - position) ?_
      rwa [Nat.add_sub_cancel' hfrom]
    · exact fun hnone i => hnone (position + i)
  · unfold Reader.searchedData
    rw [hnone]
    rfl

/-- A keyword that straddles the end of the first piece, behind bytes that do not begin one. -/
def straddlingText : Bytes := List.replicate (stride - 3) 0x78 ++ ascii "endstream"

/-- The keyword is found where it stands, up to the last limit that it fits in and not below. -/
theorem straddlingText_found :
    ascii "endstream" ≠ [] ∧
    (⟨0, straddlingText.drop 0⟩ : Cursor).find? (ascii "endstream") (stride + 6) =
      some (stride - 3) ∧
    (⟨0, straddlingText.drop 0⟩ : Cursor).find? (ascii "endstream") (stride + 5) = none := by
  have hne : ascii "endstream" ≠ [] := by decide
  have hstride : stride = 8192 := rfl
  have hword : (ascii "endstream").length = 9 := rfl
  have hlength : straddlingText.length = stride + 6 := by
    rw [straddlingText, List.length_append, List.length_replicate, hword]
    rfl
  have hstands : ascii "endstream" <+: straddlingText.drop (stride - 3) :=
    ⟨[], by rw [straddlingText, List.drop_left' List.length_replicate, List.append_nil]⟩
  -- in front of the keyword no byte is its first one
  have hleast : ∀ offset, ascii "endstream" <+: straddlingText.drop offset →
      stride - 3 ≤ offset := by
    intro offset hoccurs
    refine Nat.le_of_not_lt fun hlt => ?_
    obtain ⟨left, hleft⟩ : ∃ left, stride - 3 - offset = left + 1 := ⟨stride - 4 - offset, by omega⟩
    rw [straddlingText, List.drop_append_of_le_length (by rw [List.length_replicate]; omega),
      List.drop_replicate, hleft, List.replicate_succ, List.cons_append] at hoccurs
    exact absurd (List.cons_prefix_cons.mp hoccurs).1 (by decide)
  have hfound := (find?_eq_least hne straddlingText 0 (stride + 6)).1 (stride - 3)
  have hmissed := (find?_eq_least hne straddlingText 0 (stride + 5)).2.1
  refine ⟨hne, hfound.mpr ⟨⟨Nat.zero_le _, hstands, ?_⟩, fun _ h => hleast _ h.2.1⟩,
    hmissed.mpr fun offset h => ?_⟩
  · rw [hlength]
    decide
  · have hle := hleast offset h.2.1
    have hend := h.2.2
    omega

end Cursor

end CrossReference
