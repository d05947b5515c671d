import CrossReference.Chain
import CrossReference.Proofs.Bytes.Search
import CrossReference.Proofs.Decimal.Digits
import CrossReference.Proofs.Token.Words

set_option autoImplicit false

/-! # Where a document says its newest section is

The end of a document as a writer produces it: the keyword `startxref`, an offset, and the mark of
the end. The offset is found, whatever stands in front. -/

namespace CrossReference.StartLink

open Decimal (digits)

/-- The mark of the end of a document, without its end of line. -/
def endMark : Bytes := ascii "%%EOF"

/-- The last lines of a document. -/
def text (offset : Nat) (closing : Bytes) : Bytes :=
  Reserved.startXref.spelling ++ 0x0A :: (digits offset ++ 0x0A :: (endMark ++ closing))

/-- The bytes behind the mark of the end: at most one end of line. -/
structure Closes (closing : Bytes) : Prop where
  isLineEnd : ∀ b ∈ closing, Byte.isLineEnd b = true
  length_le : closing.length ≤ 2

theorem length_text_le {offset : Nat} (hoffset : offset < 10 ^ 10) {closing : Bytes}
    (hclosing : Closes closing) : (text offset closing).length ≤ 28 := by
  have hdigits := Decimal.length_digits_le (by decide) hoffset
  have hclosing := hclosing.length_le
  have hspelling : Reserved.startXref.spelling.length = 9 := by decide
  have hmark : endMark.length = 5 := by decide
  unfold text
  simp only [List.length_append, List.length_cons]
  omega

theorem value_text {offset : Nat} (hoffset : offset ≤ Decimal.maxSigned64) (closing : Bytes)
    (position : Nat) :
    ∃ c, value ⟨position, text offset closing⟩ = .ok offset c := by
  have hregular : Bytes.Stops Byte.isRegular
      ([0x0A] ++ (digits offset ++ 0x0A :: (endMark ++ closing))) :=
    Bytes.stops_cons.mpr (by decide)
  have hnumber : Token.StopsNumber (0x0A :: (endMark ++ closing)) :=
    ⟨Bytes.stops_cons.mpr (by decide), Bytes.stops_cons.mpr (by decide)⟩
  have hkeyword := Reader.expect_spelling .startXref Byte.nil_white hregular position
  have hinteger := Reader.integer_digits Byte.feed_white Decimal.isDigit_digits
    (Decimal.digits_ne_nil offset) hnumber (by rw [Decimal.ofDigits_digits]; exact hoffset)
  rw [List.nil_append] at hkeyword
  rw [Decimal.ofDigits_digits] at hinteger
  exact ⟨_, bind_eq_ok.mpr ⟨(), _, hkeyword, hinteger _⟩⟩

/-- The keyword that is found is the last one. -/
theorem keyword?_text {options : Options} (hwindow : 28 ≤ options.startWindow) (front : Bytes)
    {offset : Nat} (hoffset : offset < 10 ^ 10) {closing : Bytes} (hclosing : Closes closing) :
    keyword? (front ++ text offset closing) (front ++ text offset closing).length 0
      [options.startWindow, options.extendedWindow] = some front.length := by
  have hshort := length_text_le hoffset hclosing
  have hpositive : 0 < (text offset closing).length := by
    unfold text
    rw [List.length_append]
    exact Nat.add_pos_left (by decide) _
  have hlength : (front ++ text offset closing).length =
      front.length + (text offset closing).length := List.length_append
  -- whatever the size of the document, the window reaches back to the keyword
  obtain ⟨window, hwindow⟩ :
      ∃ w, min options.startWindow (front ++ text offset closing).length = w := ⟨_, rfl⟩
  have hfront : (front ++ text offset closing).length - window ≤ front.length := by omega
  have hlast : Bytes.last? Reserved.startXref.spelling
      (front.drop ((front ++ text offset closing).length - window) ++ text offset closing) =
        some (front.drop ((front ++ text offset closing).length - window)).length := by
    have hspelling : Reserved.startXref.spelling = 0x73 :: ascii "tartxref" := by decide
    have hkeyword : 0x73 ∉ ascii "tartxref" := by decide
    have hdigits : 0x73 ∉ digits offset := fun hmem =>
      absurd (Decimal.isDigit_digits 0x73 hmem) (by decide)
    have hmark : 0x73 ∉ endMark := by decide
    have hclosing : 0x73 ∉ closing := fun hmem =>
      absurd (hclosing.isLineEnd 0x73 hmem) (by decide)
    unfold text
    rw [hspelling]
    -- no second `s` comes behind the first one
    refine Bytes.last?_append ?_ _
    simp only [List.mem_append, List.mem_cons, not_or]
    exact ⟨hkeyword, by decide, hdigits, by decide, hmark, hclosing⟩
  rw [keyword?]
  rw [hwindow, if_neg (by omega), List.drop_append_of_le_length hfront, hlast]
  dsimp only
  rw [List.length_drop]
  congr 1
  omega

/-- The offset at the end of a document is found, and without complaints. -/
theorem find_text {options : Options} (hwindow : 28 ≤ options.startWindow) (front : Bytes)
    {offset : Nat} (hoffset : offset < 10 ^ 10) {closing : Bytes} (hclosing : Closes closing) :
    find options (front ++ text offset closing) = (some offset, []) := by
  have hfits : offset ≤ Decimal.maxSigned64 := by
    unfold Decimal.maxSigned64
    omega
  obtain ⟨c, hvalue⟩ := value_text hfits closing front.length
  unfold find
  rw [keyword?_text hwindow front hoffset hclosing]
  dsimp only
  unfold offsetAt
  rw [List.drop_left, hvalue]

end CrossReference.StartLink
