import CrossReference.Proofs.Decimal.Digits
import CrossReference.Section.Line

set_option autoImplicit false

/-! # Lines that are written out

How the reader of lines takes a line whose words are written out, each of visible ASCII characters.
`wordsOf?_cons` takes one word off a line; the lines that a writer of tables produces follow:
`headerLine?_written` and `recordLine?_written`. -/

namespace CrossReference

/-! ## Characters -/

theorem toNat_latin1Char (b : UInt8) : (latin1Char b).toNat = b.toNat := by
  have hb := b.toNat_lt
  have hvalid : b.toNat.isValidChar := Or.inl (by omega)
  unfold latin1Char Char.ofNat
  rw [dif_pos hvalid]
  rfl

theorem toUInt8_latin1Char (b : UInt8) : (latin1Char b).toUInt8 = b := by
  change UInt8.ofNat (latin1Char b).toNat = b
  rw [toNat_latin1Char, UInt8.ofNat_toNat]

namespace Byte

/-- The visible ASCII characters. -/
def IsVisible (b : UInt8) : Prop := 0x21 ≤ b.toNat ∧ b.toNat ≤ 0x7E

theorem bounds_of_isDigit {b : UInt8} (h : isDigit b = true) :
    0x30 ≤ b.toNat ∧ b.toNat ≤ 0x39 := by
  rw [isDigit, Bool.and_eq_true, decide_eq_true_eq, decide_eq_true_eq, UInt8.le_iff_toNat_le,
    UInt8.le_iff_toNat_le] at h
  exact h

theorem isVisible_of_isDigit {b : UInt8} (h : isDigit b = true) : IsVisible b := by
  have hbounds := bounds_of_isDigit h
  unfold IsVisible
  omega

theorem isDigit_latin1Char {b : UInt8} (h : isDigit b = true) :
    (latin1Char b).isDigit = true := by
  have hbounds := bounds_of_isDigit h
  rw [← toNat_latin1Char] at hbounds
  rw [Char.isDigit, Bool.and_eq_true, decide_eq_true_eq, decide_eq_true_eq]
  exact ⟨UInt32.le_iff_toNat_le.mpr hbounds.1, UInt32.le_iff_toNat_le.mpr hbounds.2⟩

theorem not_isBlank_of_isVisible {b : UInt8} (h : IsVisible b) :
    Text.isBlank (latin1Char b) = false := by
  obtain ⟨hlow, hhigh⟩ := h
  unfold Text.isBlank
  dsimp only
  rw [toNat_latin1Char]
  simp only [Bool.or_eq_false_iff, Bool.and_eq_false_iff, decide_eq_false_iff_not]
  omega

end Byte

/-! ## Words -/

namespace Text

theorem wordsFrom_append {word : List Char} (hword : ∀ c ∈ word, isBlank c = false)
    (current rest : List Char) :
    wordsFrom current (word ++ rest) = wordsFrom (word.reverse ++ current) rest := by
  induction word generalizing current with
  | nil => rfl
  | cons c word ih =>
    have hc : (!isBlank c) = true := by rw [hword c List.mem_cons_self]; rfl
    have hrest := ih fun d hd => hword d (List.mem_cons_of_mem c hd)
    rw [List.cons_append, wordsFrom, if_pos hc, hrest, List.reverse_cons, List.append_assoc]
    rfl

theorem words_cons {word : List Char} (hword : ∀ c ∈ word, isBlank c = false) (hne : word ≠ [])
    {blank : Char} (hblank : isBlank blank = true) (rest : List Char) :
    words (word ++ blank :: rest) = word :: words rest := by
  have hempty : (word.reverse ++ []).isEmpty = false := by simp [hne]
  unfold words
  rw [wordsFrom_append hword, wordsFrom, hblank, hempty, List.append_nil, List.reverse_reverse]
  rfl

theorem words_single {word : List Char} (hword : ∀ c ∈ word, isBlank c = false)
    (hne : word ≠ []) : words word = [word] := by
  have hempty : (word.reverse ++ []).isEmpty = false := by simp [hne]
  unfold words
  rw [← List.append_nil word, wordsFrom_append hword, wordsFrom, hempty, List.append_nil,
    List.reverse_reverse, List.append_nil]
  rfl

end Text

namespace Text.Utf8

theorem decodeFrom_ascii {bytes : Bytes} (h : ∀ b ∈ bytes, b < 0x80) :
    decodeFrom 0 bytes = bytes.map fun b => some (latin1Char b) := by
  induction bytes with
  | nil => rfl
  | cons b rest ih =>
    have hhead : head b rest = (some (latin1Char b), 1) := by
      unfold head
      rw [if_pos (h b List.mem_cons_self)]
    rw [decodeFrom, hhead, List.map_cons, ← ih fun c hc => h c (List.mem_cons_of_mem b hc)]

/-- ASCII bytes are the characters that they stand for. -/
theorem decode?_ascii {bytes : Bytes} (h : ∀ b ∈ bytes, b < 0x80) :
    decode? bytes = some (bytes.map latin1Char) := by
  have hmap : ∀ cs : List Char, (cs.map some).mapM id = some cs := by
    intro cs
    induction cs with
    | nil => rfl
    | cons c rest ih => rw [List.map_cons, List.mapM_cons, ih]; rfl
  have hmap' := hmap (bytes.map latin1Char)
  rw [List.map_map] at hmap'
  unfold decode?
  rw [decodeFrom_ascii h]
  exact hmap'

end Text.Utf8

/-! ## Numbers -/

namespace Decimal

/-- A run of digits in a line is read as the number that it writes. -/
theorem number?_digits {max : Nat} {run : Bytes} (hd : ∀ b ∈ run, Byte.isDigit b = true)
    (hne : run ≠ []) (hmax : ofDigits run ≤ max) :
    number? max (run.map latin1Char) = some (ofDigits run) := by
  have hdigits : (run.map latin1Char).all Char.isDigit = true := by
    rw [List.all_eq_true]
    intro c hc
    obtain ⟨b, hb, rfl⟩ := List.mem_map.mp hc
    exact Byte.isDigit_latin1Char (hd b hb)
  have hbytes : (run.map latin1Char).map Char.toUInt8 = run := by
    rw [List.map_map]
    exact (List.map_congr_left fun b _ => toUInt8_latin1Char b).trans (List.map_id run)
  have hempty : (run.map latin1Char).isEmpty = false := by simp [hne]
  unfold number?
  rw [hdigits, hempty, hbytes]
  rw [if_neg (by decide), if_pos hmax]

end Decimal

/-! ## Lines -/

namespace Section

open Decimal (digits padded)

theorem isAscii_of_isVisible {b : UInt8} (h : Byte.IsVisible b) : b < 0x80 := by
  rw [UInt8.lt_iff_toNat_lt]
  exact Nat.lt_of_le_of_lt h.2 (by decide)

/-- A word and a space at the front of a line of ASCII characters. -/
theorem wordsOf?_cons {word rest : Bytes} (hword : ∀ b ∈ word, Byte.IsVisible b)
    (hne : word ≠ []) (hrest : ∀ b ∈ rest, b < 0x80) :
    wordsOf? (word ++ 0x20 :: rest) =
      (wordsOf? rest).map (word.map latin1Char :: ·) := by
  have hascii : ∀ b ∈ word ++ 0x20 :: rest, b < 0x80 := by
    intro b hb
    rcases List.mem_append.mp hb with hb | hb
    · exact isAscii_of_isVisible (hword b hb)
    · rcases List.mem_cons.mp hb with rfl | hb
      · decide
      · exact hrest b hb
  have hchars : ∀ c ∈ word.map latin1Char, Text.isBlank c = false := by
    intro c hc
    obtain ⟨b, hb, rfl⟩ := List.mem_map.mp hc
    exact Byte.not_isBlank_of_isVisible (hword b hb)
  unfold wordsOf?
  rw [Text.Utf8.decode?_ascii hascii, Text.Utf8.decode?_ascii hrest, Option.map_some,
    Option.map_some, Option.map_some, List.map_append, List.map_cons,
    Text.words_cons hchars (by simpa using hne) (by decide)]

/-- A line that is a single word. -/
theorem wordsOf?_single {word : Bytes} (hword : ∀ b ∈ word, Byte.IsVisible b) (hne : word ≠ []) :
    wordsOf? word = some [word.map latin1Char] := by
  have hchars : ∀ c ∈ word.map latin1Char, Text.isBlank c = false := by
    intro c hc
    obtain ⟨b, hb, rfl⟩ := List.mem_map.mp hc
    exact Byte.not_isBlank_of_isVisible (hword b hb)
  unfold wordsOf?
  rw [Text.Utf8.decode?_ascii fun b hb => isAscii_of_isVisible (hword b hb), Option.map_some,
    Text.words_single hchars (by simpa using hne)]

theorem isVisible_digits {n : Nat} : ∀ b ∈ digits n, Byte.IsVisible b :=
  fun b hb => Byte.isVisible_of_isDigit (Decimal.isDigit_digits b hb)

theorem isVisible_padded {width n : Nat} : ∀ b ∈ padded width n, Byte.IsVisible b :=
  fun b hb => Byte.isVisible_of_isDigit (Decimal.isDigit_padded b hb)

theorem headerNumber?_digits {n : Nat} (h : n ≤ Decimal.maxWord64) :
    headerNumber? ((digits n).map latin1Char) = some n := by
  have hread := Decimal.number?_digits Decimal.isDigit_digits (Decimal.digits_ne_nil n)
    (Decimal.ofDigits_digits n ▸ h)
  rw [Decimal.ofDigits_digits] at hread
  unfold headerNumber?
  split
  · rename_i rest hplus
    -- a plus sign is no digit
    have hmem : '+' ∈ (digits n).map latin1Char := by
      rw [hplus]
      exact List.mem_cons_self
    obtain ⟨b, hb, hc⟩ := List.mem_map.mp hmem
    have hdigit := Byte.isDigit_latin1Char (Decimal.isDigit_digits b hb)
    rw [hc] at hdigit
    exact absurd hdigit (by decide)
  · exact hread

/-- The header line of a subsection. -/
theorem headerLine?_written {start count : Nat} (hstart : start ≤ Decimal.maxWord64)
    (hcount : count ≤ Decimal.maxWord64) :
    headerLine? (digits start ++ 0x20 :: digits count) = some (start, count) := by
  unfold headerLine?
  rw [wordsOf?_cons isVisible_digits (Decimal.digits_ne_nil start)
      (fun b hb => isAscii_of_isVisible (isVisible_digits b hb)),
    wordsOf?_single isVisible_digits (Decimal.digits_ne_nil count)]
  dsimp only [Option.map_some]
  rw [headerNumber?_digits hstart, headerNumber?_digits hcount]
  rfl

/-- The mark of a record. -/
def markOf (inUse : Bool) : UInt8 := if inUse then 0x6E else 0x66

/-- The words of a record's line, with or without a space behind the mark. -/
theorem wordsOf?_record (field generation : Nat) (inUse : Bool) {trail : Bytes}
    (htrail : trail = [] ∨ trail = [0x20]) :
    wordsOf? (padded 10 field ++ 0x20 :: (padded 5 generation ++ 0x20 :: markOf inUse :: trail)) =
      some [(padded 10 field).map latin1Char, (padded 5 generation).map latin1Char,
        [latin1Char (markOf inUse)]] := by
  have hmark : wordsOf? (markOf inUse :: trail) = some [[latin1Char (markOf inUse)]] := by
    rcases htrail with rfl | rfl <;> cases inUse <;> decide
  have hmarkAscii : ∀ b ∈ markOf inUse :: trail, b < 0x80 := by
    rcases htrail with rfl | rfl <;> cases inUse <;> simp [markOf]
  have hrestAscii : ∀ b ∈ padded 5 generation ++ 0x20 :: markOf inUse :: trail, b < 0x80 := by
    intro b hb
    rcases List.mem_append.mp hb with hb | hb
    · exact isAscii_of_isVisible (isVisible_padded b hb)
    · rcases List.mem_cons.mp hb with rfl | hb
      · decide
      · exact hmarkAscii b hb
  rw [wordsOf?_cons isVisible_padded (Decimal.padded_ne_nil 10 field) hrestAscii,
    wordsOf?_cons isVisible_padded (Decimal.padded_ne_nil 5 generation) hmarkAscii, hmark]
  rfl

/-- A record is read as it is written. -/
theorem recordLine?_written (pedantic : Bool) {field generation : Nat} (hfield : field < 10 ^ 10)
    (hgeneration : generation < 10 ^ 5) (inUse : Bool) {trail : Bytes}
    (htrail : trail = [] ∨ trail = [0x20]) :
    recordLine? pedantic
        (padded 10 field ++ 0x20 :: (padded 5 generation ++ 0x20 :: markOf inUse :: trail)) =
      some (generation, if inUse then .direct field else .free field) := by
  have field_le : field ≤ Decimal.maxWord64 := by
    unfold Decimal.maxWord64
    omega
  have generation_le : generation ≤ Decimal.maxWord32 := by
    unfold Decimal.maxWord32
    omega
  have hmark : inUseMark? [latin1Char (markOf inUse)] = some inUse := by
    cases inUse <;> decide
  have hfield' := Decimal.number?_digits (Decimal.isDigit_padded) (Decimal.padded_ne_nil 10 field)
    (Decimal.ofDigits_padded 10 field ▸ field_le)
  have hgeneration' := Decimal.number?_digits (Decimal.isDigit_padded)
    (Decimal.padded_ne_nil 5 generation) (Decimal.ofDigits_padded 5 generation ▸ generation_le)
  rw [Decimal.ofDigits_padded] at hfield' hgeneration'
  have hwidths : hasFixedWidths ((padded 10 field).map latin1Char)
      ((padded 5 generation).map latin1Char) = true := by
    unfold hasFixedWidths
    rw [List.length_map, List.length_map, Decimal.length_padded (by decide) hfield,
      Decimal.length_padded (by decide) hgeneration]
    rfl
  unfold recordLine?
  rw [wordsOf?_record field generation inUse htrail]
  dsimp only
  rw [hwidths, hfield', hgeneration', hmark]
  cases pedantic <;> rfl

end Section

end CrossReference
