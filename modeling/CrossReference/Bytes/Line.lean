import CrossReference.Byte

set_option autoImplicit false

/-! # Lines

A line ends at a line feed, at a carriage return, or at the two in this order, which count as one
end. The last line of a text may go without. -/

namespace CrossReference.Bytes

/-- The bytes of the first line, without its end. -/
def line (text : Bytes) : Bytes := text.takeWhile (!Byte.isLineEnd ·)

/-- How many bytes the end of line at the front of a text takes; none if there is none. -/
def lineEndLength : Bytes → Nat
  | 0x0D :: 0x0A :: _ => 2
  | 0x0D :: _ => 1
  | 0x0A :: _ => 1
  | _ => 0

/-- How many bytes the first line takes, its end counted in. -/
def lineLength (text : Bytes) : Nat :=
  let body := (line text).length
  body + lineEndLength (text.drop body)

/-- A line takes a byte at least, so lines cannot be counted without end. -/
theorem lineLength_pos {text : Bytes} (h : text ≠ []) : 0 < lineLength text := by
  obtain ⟨b, rest, rfl⟩ := List.exists_cons_of_ne_nil h
  unfold lineLength line
  by_cases hb : Byte.isLineEnd b
  · have : b = 0x0A ∨ b = 0x0D := by simpa [Byte.isLineEnd] using hb
    rcases this with rfl | rfl
    · simp [Byte.isLineEnd, lineEndLength]
    · cases rest with
      | nil => simp [Byte.isLineEnd, lineEndLength]
      | cons c rest => by_cases hc : c = 0x0A <;> simp [Byte.isLineEnd, lineEndLength, hc]
  · have hb' : (!Byte.isLineEnd b) = true := by simpa using hb
    simp only [List.takeWhile_cons, hb', if_true, List.length_cons]
    omega

end CrossReference.Bytes
