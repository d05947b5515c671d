import CrossReference.Proofs.Filter.Base85

set_option autoImplicit false

/-! # White space in encoded data

The decoders of characters pass over white space, so it makes no difference whether it is there, but
for one place. The mark `<~` in front of digits of base 85 is looked for before any white space is
passed over. With white space in front of it or inside, it is not found, and its two characters are
read as what they are anywhere else: a digit, and the mark of the end. A single digit is no data, so
the answer is always the same fault (`decodeAscii85_of_hidesMark`). -/

namespace CrossReference.Filter

/-- Data without its white space. -/
def compact (data : Bytes) : Bytes := data.filter fun b => !Byte.isWhite b

theorem compact_cons_white {b : UInt8} (h : Byte.isWhite b = true) (rest : Bytes) :
    compact (b :: rest) = compact rest := by
  simp [compact, h]

theorem compact_cons {b : UInt8} (h : Byte.isWhite b = false) (rest : Bytes) :
    compact (b :: rest) = b :: compact rest := by
  simp [compact, h]

/-! ## Hexadecimal digits -/

theorem hexDigitsFrom_compact (acc : List UInt8) (data : Bytes) :
    hexDigitsFrom acc (compact data) = hexDigitsFrom acc data := by
  induction data generalizing acc with
  | nil => rfl
  | cons b rest ih =>
    cases hwhite : Byte.isWhite b with
    | true =>
      have hmark : b ≠ 0x3E := by
        rintro rfl
        cases hwhite
      rw [compact_cons_white hwhite, ih, hexDigitsFrom, if_neg hmark, if_pos hwhite]
    | false =>
      rw [compact_cons hwhite]
      simp only [hexDigitsFrom, hwhite, ih]

theorem decodeAsciiHex_compact (data : Bytes) :
    decodeAsciiHex (compact data) = decodeAsciiHex data := by
  simp only [decodeAsciiHex, hexDigitsFrom_compact]

/-! ## Digits of base 85 -/

/-- Whether data begins with the mark in front of digits of base 85. -/
def isMarked : Bytes → Bool
  | 0x3C :: 0x7E :: _ => true
  | _ => false

/-- Whether there is white space in front of the mark or inside it, so that data begins with the
    mark only when its white space is taken away. -/
def hidesMark (data : Bytes) : Bool := isMarked (compact data) && !isMarked data

theorem isMarked_iff {data : Bytes} :
    isMarked data = true ↔ ∃ rest, data = 0x3C :: 0x7E :: rest := by
  constructor
  · intro h
    unfold isMarked at h
    split at h
    · rename_i rest
      exact ⟨rest, rfl⟩
    · cases h
  · rintro ⟨rest, rfl⟩
    rfl

theorem decodeAscii85_of_not_isMarked {data : Bytes} (h : isMarked data = false) :
    decodeAscii85 data = base85From [] [] data := by
  refine decodeAscii85_of_unmarked fun rest hdata => ?_
  rw [hdata] at h
  cases h

/-- The characters of the mark, read as digits, are one digit and the end. -/
theorem base85From_of_isMarked {data : Bytes} (h : isMarked data = true) :
    base85From [] [] data = .error .ascii85Tail := by
  obtain ⟨rest, rfl⟩ := isMarked_iff.mp h
  rfl

/-- A mark with white space in front of it or inside is no mark, and then the data is refused. -/
theorem decodeAscii85_of_hidesMark {data : Bytes} (h : hidesMark data = true) :
    decodeAscii85 data = .error .ascii85Tail := by
  obtain ⟨hcompact, hdata⟩ : isMarked (compact data) = true ∧ isMarked data = false := by
    simpa [hidesMark] using h
  rw [decodeAscii85_of_not_isMarked hdata, ← base85From_filter]
  exact base85From_of_isMarked hcompact

theorem decodeAscii85_compact {data : Bytes} (h : hidesMark data = false) :
    decodeAscii85 (compact data) = decodeAscii85 data := by
  cases hdata : isMarked data with
  | true =>
    obtain ⟨rest, rfl⟩ := isMarked_iff.mp hdata
    show base85From [] [] (compact rest) = base85From [] [] rest
    exact base85From_filter [] [] rest
  | false =>
    have hcompact : isMarked (compact data) = false := by simpa [hidesMark, hdata] using h
    rw [decodeAscii85_of_not_isMarked hcompact, decodeAscii85_of_not_isMarked hdata]
    exact base85From_filter [] [] data

/-! ## Both -/

/-- Taking all white space away does not change what hexadecimal digits are decoded to, nor the
    fault if they are refused. With digits of base 85 it is the same, unless there is white space in
    front of the mark or inside it: then the data is refused for its single digit, whatever it is
    decoded to without white space. -/
theorem decode_compact (data : Bytes) :
    decodeAsciiHex (compact data) = decodeAsciiHex data ∧
    decodeAscii85 data =
      if hidesMark data then .error .ascii85Tail else decodeAscii85 (compact data) := by
  refine ⟨decodeAsciiHex_compact data, ?_⟩
  cases h : hidesMark data with
  | true => exact decodeAscii85_of_hidesMark h
  | false => exact (decodeAscii85_compact h).symm

/-- A space in front of the mark makes the data unreadable. -/
theorem hidden_mark_refused :
    decodeAscii85 (ascii " <~87cURDZ~>") = .error .ascii85Tail ∧
    decodeAscii85 (compact (ascii " <~87cURDZ~>")) = .ok (ascii "Hello") := by
  exact ⟨rfl, rfl⟩

end CrossReference.Filter
