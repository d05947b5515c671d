import CrossReference.Proofs.Scan.Lines
import CrossReference.Proofs.Section.Extension
import CrossReference.Proofs.Section.Line

set_option autoImplicit false

/-! # Tables that are written out

A table as a writer produces it: subsections of records that take twenty bytes each, one behind the
other, and a trailer. `readTable_written` says that the reader takes exactly these records, in order
and without complaints, whatever stands behind the trailer. Each part is read up to the first byte
of the next one, so the only condition on what follows is on its first byte: it is no digit behind
the last record, and no line feed behind a record that ends with a carriage return. -/

namespace CrossReference.Section

open Bytes (Stops)
open Decimal (digits padded)

/-! ## Lines -/

/-- Passing over a line whose end is known. -/
theorem skipLine_written {body tail : Bytes} (hbody : ∀ b ∈ body, (!Byte.isLineEnd b) = true)
    (htail : Stops (!Byte.isLineEnd ·) tail) (position : Nat) :
    (⟨position, body ++ tail⟩ : Cursor).skipLine =
      ⟨position + (body.length + Bytes.lineEndLength tail), tail.drop (Bytes.lineEndLength tail)⟩ :=
  by
  unfold Cursor.skipLine Cursor.advance
  dsimp only
  rw [Bytes.lineLength_run hbody htail, List.drop_length_add_append]

theorem line_written {body tail : Bytes} (hbody : ∀ b ∈ body, (!Byte.isLineEnd b) = true)
    (htail : Stops (!Byte.isLineEnd ·) tail) (position : Nat) :
    (⟨position, body ++ tail⟩ : Cursor).line = body :=
  Bytes.takeWhile_run hbody htail

theorem skipWhite_run {white text : Bytes} (hwhite : ∀ b ∈ white, Byte.isWhite b = true)
    (h : Stops Byte.isWhite text) (position : Nat) :
    (⟨position, white ++ text⟩ : Cursor).skipWhite = ⟨position + white.length, text⟩ := by
  unfold Cursor.skipWhite Cursor.whiteLength Cursor.advance
  dsimp only
  rw [Bytes.takeWhile_run hwhite h, List.drop_left]

/-- In front of text there is no white space to pass over. -/
theorem skipWhite_of_stops {text : Bytes} (h : Stops Byte.isWhite text) (position : Nat) :
    (⟨position, text⟩ : Cursor).skipWhite = ⟨position, text⟩ :=
  skipWhite_run Byte.nil_white h position

theorem notLineEnd_of_isVisible {b : UInt8} (h : Byte.IsVisible b) :
    (!Byte.isLineEnd b) = true := by
  cases hb : Byte.isLineEnd b with
  | false => rfl
  | true =>
    simp only [Byte.isLineEnd, Bool.or_eq_true, decide_eq_true_eq] at hb
    rcases hb with rfl | rfl <;> exact absurd h.1 (by decide)

/-! ## Records -/

/-- How a record of twenty bytes ends: its mark stands in front of two bytes that end the line. -/
inductive RowEnd where
  | returnFeed
  | spaceFeed
  | spaceReturn
deriving DecidableEq, Repr

namespace RowEnd

/-- What belongs to the line. -/
def trail : RowEnd → Bytes
  | returnFeed => []
  | _ => [0x20]

/-- The end of the line. -/
def feed : RowEnd → Bytes
  | returnFeed => [0x0D, 0x0A]
  | spaceFeed => [0x0A]
  | spaceReturn => [0x0D]

theorem trail_cases (e : RowEnd) : e.trail = [] ∨ e.trail = [0x20] := by
  cases e
  · exact Or.inl rfl
  · exact Or.inr rfl
  · exact Or.inr rfl

theorem stops_feed (e : RowEnd) (rest : Bytes) : Stops (!Byte.isLineEnd ·) (e.feed ++ rest) := by
  cases e <;> exact Bytes.stops_cons.mpr (by decide)

theorem lineEndLength_feed (e : RowEnd) {rest : Bytes} (hrest : Stops (· = 0x0A) rest) :
    Bytes.lineEndLength (e.feed ++ rest) = e.feed.length := by
  cases e with
  | returnFeed => rfl
  | spaceFeed => rfl
  | spaceReturn =>
    cases rest with
    | nil => rfl
    | cons b rest =>
      have hb : b ≠ 0x0A := of_decide_eq_false (Bytes.stops_cons.mp hrest)
      simp [feed, Bytes.lineEndLength, hb]

end RowEnd

/-- A record as a writer gives it. -/
structure Row where
  field : Nat
  generation : Nat
  inUse : Bool
  ending : RowEnd
  field_lt : field < 10 ^ 10
  generation_lt : generation < 10 ^ 5

namespace Row

/-- What a record says. -/
def entry (r : Row) : Entry := if r.inUse then .direct r.field else .free r.field

/-- The line of a record. -/
def line (r : Row) : Bytes :=
  padded 10 r.field ++
    0x20 :: (padded 5 r.generation ++ 0x20 :: markOf r.inUse :: r.ending.trail)

/-- The twenty bytes of a record. -/
def text (r : Row) : Bytes := r.line ++ r.ending.feed

theorem notLineEnd_line (r : Row) : ∀ b ∈ r.line, (!Byte.isLineEnd b) = true := by
  intro b hb
  unfold line at hb
  rcases List.mem_append.mp hb with hb | hb
  · exact notLineEnd_of_isVisible (isVisible_padded b hb)
  · rcases List.mem_cons.mp hb with rfl | hb
    · decide
    · rcases List.mem_append.mp hb with hb | hb
      · exact notLineEnd_of_isVisible (isVisible_padded b hb)
      · rcases List.mem_cons.mp hb with rfl | hb
        · decide
        · rcases List.mem_cons.mp hb with rfl | hb
          · cases r.inUse <;> decide
          · rcases r.ending.trail_cases with htrail | htrail
            · rw [htrail] at hb
              cases hb
            · rw [htrail, List.mem_singleton] at hb
              rw [hb]
              decide

/-- A record begins with a digit. -/
theorem exists_text_eq (r : Row) : ∃ b rest, r.text = b :: rest ∧ Byte.isDigit b = true := by
  obtain ⟨b, field, hfield, hdigit⟩ :=
    Bytes.exists_cons_of_run Decimal.isDigit_padded (Decimal.padded_ne_nil 10 r.field)
  unfold text line
  rw [hfield, List.cons_append, List.cons_append]
  exact ⟨b, _, rfl, hdigit⟩

end Row

/-- The entries of records for the object numbers from a first one on. -/
def numbered (number : Nat) : List Row → List (Key × Entry)
  | [] => []
  | r :: rest => (⟨number, r.generation⟩, r.entry) :: numbered (number + 1) rest

/-- Records, one behind the other. -/
def rowsText (rows : List Row) : Bytes := rows.flatMap Row.text

/-- A text that follows a digit or a letter does not begin with white space or a line feed. -/
theorem stops_white_of_isDigit {b : UInt8} (h : Byte.isDigit b = true) (rest : Bytes) :
    Stops Byte.isWhite (b :: rest) :=
  Bytes.stops_cons.mpr (Byte.not_isWhite_of_isDigit h)

theorem stops_feed_of_white {text : Bytes} (h : Stops Byte.isWhite text) :
    Stops (· = 0x0A) text := by
  refine h.mono fun b hb => ?_
  rw [of_decide_eq_true hb]
  decide

theorem stops_white_rowsText (rows : List Row) {rest : Bytes} (h : Stops Byte.isWhite rest) :
    Stops Byte.isWhite (rowsText rows ++ rest) := by
  cases rows with
  | nil => exact h
  | cons r rows =>
    obtain ⟨b, tail, htext, hdigit⟩ := r.exists_text_eq
    unfold rowsText
    rw [List.flatMap_cons, htext, List.cons_append, List.cons_append]
    exact stops_white_of_isDigit hdigit _

/-! ## Subsections -/

/-- A subsection as a writer gives it. Its numbers have 64 bits, those of its objects too. -/
structure Subsection where
  start : Nat
  rows : List Row
  start_le : start ≤ Decimal.maxWord64
  count_le : rows.length ≤ Decimal.maxWord64
  numbers_le : start + rows.length ≤ Decimal.maxWord64 + 1

namespace Subsection

/-- The line that announces the records. -/
def header (s : Subsection) : Bytes := digits s.start ++ 0x20 :: digits s.rows.length

/-- The bytes of a subsection. -/
def text (s : Subsection) : Bytes := s.header ++ 0x0A :: rowsText s.rows

/-- What a subsection says. -/
def records (s : Subsection) : List (Key × Entry) := numbered s.start s.rows

theorem notLineEnd_header (s : Subsection) : ∀ b ∈ s.header, (!Byte.isLineEnd b) = true := by
  intro b hb
  rcases List.mem_append.mp hb with hb | hb
  · exact notLineEnd_of_isVisible (isVisible_digits b hb)
  · rcases List.mem_cons.mp hb with rfl | hb
    · decide
    · exact notLineEnd_of_isVisible (isVisible_digits b hb)

/-- A subsection begins with a digit. -/
theorem exists_text_eq (s : Subsection) :
    ∃ b rest, s.text = b :: rest ∧ Byte.isDigit b = true := by
  obtain ⟨b, start, hstart, hdigit⟩ :=
    Bytes.exists_cons_of_run Decimal.isDigit_digits (Decimal.digits_ne_nil s.start)
  unfold text header
  rw [hstart, List.cons_append, List.cons_append]
  exact ⟨b, _, rfl, hdigit⟩

end Subsection

/-- Subsections, one behind the other. -/
def subsectionsText (subsections : List Subsection) : Bytes := subsections.flatMap Subsection.text

theorem stops_white_subsectionsText (subsections : List Subsection) {rest : Bytes}
    (h : Stops Byte.isWhite rest) : Stops Byte.isWhite (subsectionsText subsections ++ rest) := by
  cases subsections with
  | nil => exact h
  | cons s subsections =>
    obtain ⟨b, tail, htext, hdigit⟩ := s.exists_text_eq
    unfold subsectionsText
    rw [List.flatMap_cons, htext, List.cons_append, List.cons_append]
    exact stops_white_of_isDigit hdigit _

/-! ## Reading them back -/

variable {pedantic : Bool} {records : List (Key × Entry)} {notes : List Diagnostic}

theorem readRecord_written (r : Row) {number : Nat} (hnumber : number ≤ Decimal.maxWord64)
    {rest : Bytes} (hrest : Stops (· = 0x0A) rest) (position : Nat) :
    readRecord pedantic number ⟨position, r.text ++ rest⟩
        ⟨⟨position, r.text ++ rest⟩, records, notes⟩ =
      .ok () ⟨⟨position + r.text.length, rest⟩,
        records ++ [(⟨number, r.generation⟩, r.entry)], notes⟩ := by
  have htext : r.text ++ rest = r.line ++ (r.ending.feed ++ rest) := List.append_assoc ..
  have hline : (⟨position, r.text ++ rest⟩ : Cursor).line = r.line := by
    rw [htext]
    exact line_written r.notLineEnd_line (r.ending.stops_feed rest) position
  have hskip : (⟨position, r.text ++ rest⟩ : Cursor).skipLine =
      ⟨position + r.text.length, rest⟩ := by
    rw [htext, skipLine_written r.notLineEnd_line (r.ending.stops_feed rest),
      r.ending.lineEndLength_feed hrest, List.drop_left, Row.text, List.length_append]
  have hrecord : recordLine? pedantic r.line = some (r.generation, r.entry) :=
    recordLine?_written pedantic r.field_lt r.generation_lt r.inUse r.ending.trail_cases
  rw [readRecord_eq, bind_of_ok (move_eq _ _), if_neg (Nat.not_lt.mpr hnumber)]
  dsimp only
  unfold keepRecord
  rw [hskip, hline, hrecord]
  rfl

theorem readRecords_written (rows : List Row) {start count done : Nat}
    (hnumbers : start + done + rows.length ≤ Decimal.maxWord64 + 1) {rest : Bytes}
    (hrest : Stops Byte.isWhite rest) (position : Nat) :
    readRecords pedantic start count done rows.length
        ⟨⟨position, rowsText rows ++ rest⟩, records, notes⟩ =
      .ok () ⟨⟨position + (rowsText rows).length, rest⟩,
        records ++ numbered (start + done) rows, notes⟩ := by
  induction rows generalizing done position records with
  | nil =>
    unfold numbered
    rw [List.append_nil]
    rfl
  | cons r rows ih =>
    rw [List.length_cons] at hnumbers
    obtain ⟨b, tail, htext, hdigit⟩ := r.exists_text_eq
    have hsplit : rowsText (r :: rows) ++ rest = r.text ++ (rowsText rows ++ rest) :=
      List.append_assoc ..
    have hlength : (rowsText (r :: rows)).length = r.text.length + (rowsText rows).length :=
      List.length_append
    have hwhite : (⟨position, r.text ++ (rowsText rows ++ rest)⟩ : Cursor).skipWhite =
        ⟨position, r.text ++ (rowsText rows ++ rest)⟩ := by
      refine skipWhite_of_stops ?_ position
      rw [htext]
      exact stops_white_of_isDigit hdigit _
    have hat : (⟨position, r.text ++ (rowsText rows ++ rest)⟩ : Cursor).atDigit = true := by
      rw [htext]
      exact hdigit
    have hnext := stops_feed_of_white (stops_white_rowsText rows hrest)
    rw [hsplit, List.length_cons, readRecords, bind_of_ok (skipToText_eq _)]
    dsimp only
    rw [hwhite, if_pos hat, bind_of_ok (readRecord_written r (by omega) hnext position),
      ih (by omega), hlength, numbered, List.append_assoc, Nat.add_assoc position,
      Nat.add_assoc start]
    rfl

/-- In front of the first subsection there may be white space. -/
theorem readSubsections_white {white text : Bytes} (hwhite : ∀ b ∈ white, Byte.isWhite b = true)
    (htext : Stops Byte.isWhite text) (rounds position : Nat) :
    readSubsections pedantic (rounds + 1) ⟨⟨position, white ++ text⟩, records, notes⟩ =
      readSubsections pedantic (rounds + 1)
        ⟨⟨position + white.length, text⟩, records, notes⟩ := by
  rw [readSubsections_succ, bind_of_ok (skipToText_eq _), bind_of_ok (skipToText_eq _)]
  dsimp only
  rw [skipWhite_run hwhite htext, skipWhite_of_stops htext]

theorem readSubsections_one (s : Subsection) {rest : Bytes} (hrest : Stops Byte.isWhite rest)
    (rounds position : Nat) :
    readSubsections pedantic (rounds + 1) ⟨⟨position, s.text ++ rest⟩, records, notes⟩ =
      readSubsections pedantic rounds
        ⟨⟨position + s.text.length, rest⟩, records ++ s.records, notes⟩ := by
  obtain ⟨b, tail, hbegin, hdigit⟩ := s.exists_text_eq
  have hskip : (⟨position, s.text ++ rest⟩ : Cursor).skipWhite = ⟨position, s.text ++ rest⟩ := by
    refine skipWhite_of_stops ?_ position
    rw [hbegin]
    exact stops_white_of_isDigit hdigit _
  have hat : (⟨position, s.text ++ rest⟩ : Cursor).atDigit = true := by
    rw [hbegin]
    exact hdigit
  have hsplit : s.text ++ rest = s.header ++ 0x0A :: (rowsText s.rows ++ rest) :=
    List.append_assoc ..
  have hfeed : Stops (!Byte.isLineEnd ·) (0x0A :: (rowsText s.rows ++ rest)) :=
    Bytes.stops_cons.mpr (by decide)
  have hline : (⟨position, s.text ++ rest⟩ : Cursor).line = s.header := by
    rw [hsplit]
    exact line_written s.notLineEnd_header hfeed position
  have hskipLine : (⟨position, s.text ++ rest⟩ : Cursor).skipLine =
      ⟨position + (s.header.length + 1), rowsText s.rows ++ rest⟩ := by
    rw [hsplit, skipLine_written s.notLineEnd_header hfeed]
    rfl
  have hheader : headerLine? s.header = some (s.start, s.rows.length) :=
    headerLine?_written s.start_le s.count_le
  have hlength : position + (s.header.length + 1) + (rowsText s.rows).length =
      position + s.text.length := by
    rw [Subsection.text, List.length_append, List.length_cons]
    omega
  rw [readSubsections_succ, bind_of_ok (skipToText_eq _)]
  dsimp only
  rw [hskip, if_pos hat, bind_of_ok (move_eq _ _)]
  dsimp only
  unfold readAnnounced
  rw [hskipLine, hline, hheader]
  dsimp only
  rw [bind_of_ok (readRecords_written s.rows s.numbers_le hrest _), hlength]
  rfl

/-- Subsections are read up to a text that does not begin with a digit. -/
theorem readSubsections_written (subsections : List Subsection) {rest : Bytes}
    (hrest : Stops Byte.isWhite rest) (hend : Stops Byte.isDigit rest) {rounds : Nat}
    (hrounds : subsections.length < rounds) (position : Nat) :
    readSubsections pedantic rounds
        ⟨⟨position, subsectionsText subsections ++ rest⟩, records, notes⟩ =
      .ok () ⟨⟨position + (subsectionsText subsections).length, rest⟩,
        records ++ subsections.flatMap Subsection.records, notes⟩ := by
  obtain ⟨left, rfl⟩ : ∃ left, rounds = left + 1 := ⟨rounds - 1, by omega⟩
  induction subsections generalizing left position records with
  | nil =>
    have hskip : (⟨position, subsectionsText [] ++ rest⟩ : Cursor).skipWhite =
        ⟨position, rest⟩ := skipWhite_of_stops hrest position
    have hat : (⟨position, rest⟩ : Cursor).atDigit = false := by
      unfold Cursor.atDigit Cursor.peek?
      cases rest with
      | nil => rfl
      | cons b rest => exact Bytes.stops_cons.mp hend
    rw [readSubsections_succ, bind_of_ok (skipToText_eq _)]
    dsimp only
    rw [hskip, hat, if_neg Bool.false_ne_true, List.flatMap_nil, List.append_nil]
    rfl
  | cons s subsections ih =>
    rw [List.length_cons] at hrounds
    obtain ⟨left, rfl⟩ : ∃ n, left = n + 1 := ⟨left - 1, by omega⟩
    have hsplit : subsectionsText (s :: subsections) ++ rest =
        s.text ++ (subsectionsText subsections ++ rest) := List.append_assoc ..
    have hlength : (subsectionsText (s :: subsections)).length =
        s.text.length + (subsectionsText subsections).length := List.length_append
    rw [hsplit, readSubsections_one s (stops_white_subsectionsText subsections hrest),
      ih _ left (by omega), hlength, List.flatMap_cons, List.append_assoc,
      Nat.add_assoc position]

/-! ## Tables -/

/-- A table from its keyword to the keyword of its trailer. -/
def tableText (subsections : List Subsection) : Bytes :=
  Reserved.xref.spelling ++ 0x0A :: (subsectionsText subsections ++ Reserved.trailer.spelling)

/-- How far the trailer stands behind the beginning of its table. -/
def trailerDistance (subsections : List Subsection) : Nat :=
  Reserved.xref.spelling.length + 1 + (subsectionsText subsections).length

theorem length_tableText (subsections : List Subsection) :
    (tableText subsections).length =
      trailerDistance subsections + Reserved.trailer.spelling.length := by
  unfold tableText trailerDistance
  rw [List.length_append, List.length_cons, List.length_append]
  omega

theorem probe_written (tolerance : Tolerance) (before : Bytes) (subsections : List Subsection)
    (behind : Bytes) :
    probe tolerance (before ++ (tableText subsections ++ behind)) before.length = some .table := by
  have hstop : Stops Byte.isWhite (tableText subsections ++ behind) :=
    Bytes.stops_cons.mpr (by decide)
  have hkeyword : (⟨before.length, tableText subsections ++ behind⟩ : Cursor).startsWith
      Reserved.xref.spelling = true := by
    unfold Cursor.startsWith tableText
    rw [List.append_assoc]
    exact List.isPrefixOf_iff_prefix.mpr (List.prefix_append _ _)
  have hin : ¬(⟨before.length, tableText subsections ++ behind⟩ : Cursor).isEnd = true :=
    Bool.false_ne_true
  unfold probe
  dsimp only
  rw [List.drop_left, if_neg hin, skipWhite_of_stops hstop, if_pos hkeyword]

theorem findTrailer_written {rest : Bytes} {rounds : Nat} (hrounds : 0 < rounds)
    (position : Nat) :
    findTrailer rounds ⟨⟨position, Reserved.trailer.spelling ++ rest⟩, records, notes⟩ =
      .ok position ⟨⟨position, Reserved.trailer.spelling ++ rest⟩, records, notes⟩ := by
  obtain ⟨left, rfl⟩ : ∃ left, rounds = left + 1 := ⟨rounds - 1, by omega⟩
  have hskip : (⟨position, Reserved.trailer.spelling ++ rest⟩ : Cursor).skipWhite =
      ⟨position, Reserved.trailer.spelling ++ rest⟩ :=
    skipWhite_of_stops (Bytes.stops_cons.mpr (by decide)) position
  rw [findTrailer, bind_of_ok (skipToText_eq _)]
  dsimp only
  rw [hskip]
  rfl

/-- The keyword and the subsections are read up to a text that does not begin with a digit. -/
theorem readBody_written (subsections : List Subsection) {rest : Bytes}
    (hrest : Stops Byte.isWhite rest) (hend : Stops Byte.isDigit rest) (position : Nat) :
    readBody pedantic ⟨⟨position, Reserved.xref.spelling ++
        ([0x0A] ++ (subsectionsText subsections ++ rest))⟩, records, notes⟩ =
      .ok () ⟨⟨position + trailerDistance subsections, rest⟩,
        records ++ subsections.flatMap Subsection.records, notes⟩ := by
  have hstop : Stops Byte.isRegular ([0x0A] ++ (subsectionsText subsections ++ rest)) :=
    Bytes.stops_cons.mpr (by decide)
  have hxref := Reader.expect_spelling .xref Byte.nil_white hstop position
  rw [List.nil_append, List.length_nil, Nat.zero_add] at hxref
  -- there are as many rounds as bytes, which is more than there are subsections
  have hrounds : ([0x0A] ++ (subsectionsText subsections ++ rest)).length =
      (subsectionsText subsections ++ rest).length + 1 := rfl
  have henough : subsections.length < (subsectionsText subsections ++ rest).length + 1 := by
    have hne : ∀ s : Subsection, s.text ≠ [] := by
      intro s
      obtain ⟨b, tail, htext, _⟩ := s.exists_text_eq
      rw [htext]
      exact List.cons_ne_nil b tail
    have hle := Bytes.length_le_flatMap hne subsections
    rw [List.length_append]
    unfold subsectionsText
    omega
  have hplace : position + Reserved.xref.spelling.length + ([0x0A] : Bytes).length +
      (subsectionsText subsections).length = position + trailerDistance subsections := by
    unfold trailerDistance
    rw [List.length_singleton]
    omega
  unfold readBody
  refine bind_eq_ok.mpr ⟨(), _, reading_of_ok hxref, ?_⟩
  unfold draftRounds
  dsimp only
  rw [hrounds,
    readSubsections_white Byte.feed_white (stops_white_subsectionsText subsections hrest),
    readSubsections_written subsections hrest hend henough, hplace]

theorem readTrailer_written {tolerance : Tolerance} {behind : Bytes}
    (hbehind : Stops Byte.isRegular behind) {position : Nat} {entries : Dict Object} {c : Cursor}
    (hdict : Object.readDict tolerance
      ⟨position + Reserved.trailer.spelling.length, behind⟩ = .ok entries c) :
    readTrailer tolerance ⟨⟨position, Reserved.trailer.spelling ++ behind⟩, records, notes⟩ =
      .ok (position, entries) ⟨c, records, notes⟩ := by
  have hpositive : 0 < (Reserved.trailer.spelling ++ behind).length := by
    rw [List.length_append]
    exact Nat.add_pos_left (by decide) _
  have hkeyword := Reader.expect_spelling .trailer Byte.nil_white hbehind position
  rw [List.nil_append, List.length_nil, Nat.zero_add] at hkeyword
  unfold readTrailer
  refine bind_eq_ok.mpr ⟨position, _, findTrailer_written hpositive position, ?_⟩
  refine bind_eq_ok.mpr ⟨(), _, reading_of_ok hkeyword, ?_⟩
  exact bind_eq_ok.mpr ⟨entries, _, reading_of_ok hdict, rfl⟩

/-- A table is read with all its records and without complaints, if its trailer is. -/
theorem readTable_written {tolerance : Tolerance} {before behind : Bytes}
    (subsections : List Subsection) (hbehind : Stops Byte.isRegular behind)
    {entries : Dict Object} {c : Cursor}
    (hdict : Object.readDict tolerance
      ⟨before.length + (tableText subsections).length, behind⟩ = .ok entries c) :
    readTable tolerance (before ++ (tableText subsections ++ behind)) before.length =
      .ok (before.length + trailerDistance subsections, entries)
        ⟨c, subsections.flatMap Subsection.records, []⟩ := by
  have hwhite : Stops Byte.isWhite (Reserved.trailer.spelling ++ behind) :=
    Bytes.stops_cons.mpr (by decide)
  have hdigit : Stops Byte.isDigit (Reserved.trailer.spelling ++ behind) :=
    Bytes.stops_cons.mpr (by decide)
  have hsplit : tableText subsections ++ behind = Reserved.xref.spelling ++
      ([0x0A] ++ (subsectionsText subsections ++ (Reserved.trailer.spelling ++ behind))) := by
    unfold tableText
    simp only [List.append_assoc, List.cons_append, List.nil_append]
  rw [length_tableText, ← Nat.add_assoc] at hdict
  rw [readTable_eq, List.drop_left, hsplit]
  exact bind_eq_ok.mpr
    ⟨(), _, readBody_written subsections hwhite hdigit _, readTrailer_written hbehind hdict⟩

end CrossReference.Section
