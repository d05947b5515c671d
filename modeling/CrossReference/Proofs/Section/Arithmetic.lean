import CrossReference.Proofs.Bytes.Arithmetic
import CrossReference.Proofs.Section.Encoded

set_option autoImplicit false

/-! # Cross-reference streams in words

Records are written and read here with arithmetic in words of 64 bits, step by step, and with the
same results as with natural numbers. A reader checks three of its steps: the sum of the counts of
an index, its product with the size of a record, and each object number. If one of these is no word,
that is an error of the document. All other steps stay in words because no field is wider than one.
A writer has no errors to report. It stays in words because its numbers ascend, which leaves room
behind each of them but the last; there the size has none if the number is the greatest word. This
one step leaves its word, and then nothing is built (`highest_number_overflows`). -/

namespace CrossReference

/-! ## Widths -/

/-- Whether a word has room for each field of a record. -/
structure FieldWidths.Narrow (w : FieldWidths) : Prop where
  kind : w.kind ≤ FieldWidths.max
  second : w.second ≤ FieldWidths.max
  third : w.third ≤ FieldWidths.max

namespace Layout

theorem bind_eq_ok {α β : Type} {x : Except Error α} {f : α → Except Error β} {b : β} :
    x >>= f = .ok b ↔ ∃ a, x = .ok a ∧ f a = .ok b := by
  cases x <;> simp [bind, Except.bind]

theorem le_of_widthOf {x : Object} {n : Nat} (h : widthOf x = .ok n) : n ≤ FieldWidths.max := by
  unfold widthOf at h
  split at h
  · split at h
    · rename_i hle
      rwa [← Except.ok.inj h]
    · cases h
  · cases h

theorem narrow_of_widthsOf {entries : Dict Object} {w : FieldWidths}
    (h : widthsOf entries = .ok w) : w.Narrow := by
  unfold widthsOf at h
  split at h
  · cases h
  · rename_i kind second third _
    obtain ⟨k, hkind, h⟩ := bind_eq_ok.mp h
    obtain ⟨s, hsecond, h⟩ := bind_eq_ok.mp h
    obtain ⟨t, hthird, h⟩ := bind_eq_ok.mp h
    cases h
    exact ⟨le_of_widthOf hkind, le_of_widthOf hsecond, le_of_widthOf hthird⟩
  · cases h

theorem narrow_of_ofDict {entries : Dict Object} {l : Layout} (h : ofDict entries = .ok l) :
    l.widths.Narrow := by
  obtain ⟨size, _, h⟩ := bind_eq_ok.mp h
  obtain ⟨widths, hwidths, h⟩ := bind_eq_ok.mp h
  obtain ⟨index, _, h⟩ := bind_eq_ok.mp h
  cases h
  exact narrow_of_widthsOf hwidths

end Layout

namespace Encoder

/-! ## Encoders -/

/-- Whether the numbers of an encoder are words of the sizes that the entries of a table have, and
    its records fit into memory: a list has no more bytes than a signed word counts, and the fields
    of a record are three words, which have 24. -/
structure InWords (x : Encoder) : Prop where
  number_le : ∀ n ∈ x.numbers, n ≤ Decimal.maxWord64
  generation_le : ∀ r ∈ x.records.entries, r.2.1 ≤ Decimal.maxWord32
  fits : ∀ r ∈ x.records.entries, r.2.2.FitsWords
  held : 24 * x.records.entries.length ≤ Decimal.maxSigned64

/-- The dictionary and the data, for given widths, records, index and size. -/
def assemble (x : Encoder) (w : FieldWidths) (records : Bytes) (index : List (Nat × Nat))
    (size : Nat) : Dict Object × Bytes :=
  let entries := x.trailer
    |>.insert "Type" (.name "XRef")
    |>.insert "W" (.array [integer w.kind, integer w.second, integer w.third])
    |>.insert "Index" (.array (index.flatMap fun r => [integer r.1, integer r.2]))
    |>.insert "Size" (integer size)
  if x.compress then
    let data := Filter.encodeFlate records
    (entries |>.insert "Filter" (.name "FlateDecode") |>.insert "Length" (integer data.length),
      data)
  else (entries |>.insert "Length" (integer records.length), records)

variable {x : Encoder}

theorem build_eq_assemble (x : Encoder) :
    x.build = x.size.map (x.assemble x.widths x.recordBytes (ranges x.numbers)) := rfl

theorem InWords.second_le (words : x.InWords) {r : Record} (h : r ∈ x.records.entries) :
    (fieldsAt r).second ≤ Decimal.maxWord64 := by
  have hfits := words.fits r h
  obtain ⟨number, generation, e⟩ := r
  cases e with
  | free next => exact hfits
  | direct offset => exact hfits
  | compressed stream index => exact hfits.1

theorem InWords.third_le (words : x.InWords) {r : Record} (h : r ∈ x.records.entries) :
    (fieldsAt r).third ≤ Decimal.maxWord32 := by
  have hfits := words.fits r h
  have hgeneration := words.generation_le r h
  obtain ⟨number, generation, e⟩ := r
  cases e with
  | free next => exact hgeneration
  | direct offset => exact hgeneration
  | compressed stream index => exact hfits.2

end Encoder

namespace Word

/-- The size of a record. -/
def total (w : FieldWidths) : Option Nat := do add (← add w.kind w.second) w.third

theorem add_kind_second {w : FieldWidths} (narrow : w.Narrow) :
    add w.kind w.second = some (w.kind + w.second) := by
  obtain ⟨hkind, hsecond, _⟩ := narrow
  unfold FieldWidths.max at hkind hsecond
  exact add_of_le (by unfold Decimal.maxWord64; omega)

theorem add_third {w : FieldWidths} (narrow : w.Narrow) :
    add (w.kind + w.second) w.third = some w.total := by
  obtain ⟨hkind, hsecond, hthird⟩ := narrow
  unfold FieldWidths.max at hkind hsecond hthird
  exact add_of_le (by unfold Decimal.maxWord64; omega)

theorem total_eq {w : FieldWidths} (narrow : w.Narrow) : total w = some w.total := by
  rw [total, add_kind_second narrow]
  exact add_third narrow

/-! ## Reading -/

/-- The result of a checked step: instead of leaving its word, it is an error of the document. -/
def checked : Option Nat → Except Error Nat
  | some n => .ok n
  | none => .error (.badStream .tooManyRecords)

/-- How many bytes the records take. -/
def expectedLength (l : Layout) : Option (Except Error Nat) := do
  let size ← total l.widths
  return do
    let records ← checked (l.index.foldlM (fun n range => add n range.2) 0)
    checked (mul records size)

/-- Reads the type of a record. -/
def readKind (w : FieldWidths) (record : Bytes) : Option Nat :=
  if w.kind = 0 then some 1 else readField (record.take w.kind)

/-- Reads the fields of a record. -/
def readFields (w : FieldWidths) (record : Bytes) : Option Encoder.Fields := do
  let middle ← add w.kind w.second
  let stop ← add middle w.third
  return ⟨← readKind w record, ← readField (record.extract w.kind middle),
    ← readField (record.extract middle stop)⟩

/-- Reads the record behind `done` others of a range. Its object number is checked. -/
def decodeRecord (w : FieldWidths) (start done : Nat) (record : Bytes) :
    Option (Except Error (Option (Key × Entry))) :=
  match add start done with
  | none => some (.error (.badStream .numberOverflow))
  | some number => do
    let f ← readFields w record
    return if Decimal.maxWord32 < f.third then .error (.badStream (.thirdField f.third number))
      else .ok (Layout.entryOf number f.kind f.second f.third)

/-- Reads the records behind `done` others of a range. -/
def decodeRange (w : FieldWidths) (acc : List (Key × Entry)) (start done : Nat) (data : Bytes) :
    (left : Nat) → Option (Except Error (List (Key × Entry) × Bytes))
  | 0 => some (.ok (acc, data))
  | left + 1 => do
    let size ← total w
    let record := data.take size
    if record.length < size then return .error (.badStream .outOfRecords)
    match ← decodeRecord w start done record with
    | .error e => return .error e
    | .ok entry => decodeRange w (entry.toList ++ acc) start (done + 1) (data.drop size) left

/-- Reads the records of several ranges. -/
def decodeRanges (w : FieldWidths) (acc : List (Key × Entry)) (data : Bytes) :
    List (Nat × Nat) → Option (Except Error (List (Key × Entry)))
  | [] => some (.ok acc.reverse)
  | (start, count) :: rest => do
    match ← decodeRange w acc start 0 data count with
    | .error e => return .error e
    | .ok (acc, data) => decodeRanges w acc data rest

/-- Reads the records in decoded data. -/
def decodeEntries (l : Layout) (data : Bytes) : Option (Except Error (List (Key × Entry))) := do
  if (← total l.widths) = 0 then return .error (.badStream .emptyRecords)
  match ← expectedLength l with
  | .error e => return .error e
  | .ok expected =>
    if data.length < expected then return .error (.badStream (.shortData data.length expected))
    decodeRanges l.widths [] data l.index

variable {w : FieldWidths}

theorem checked_ofNat (n : Nat) :
    checked (ofNat n) =
      if n ≤ Decimal.maxWord64 then .ok n else .error (.badStream .tooManyRecords) := by
  unfold ofNat
  split <;> rfl

theorem expectedLength_eq {l : Layout} (narrow : l.widths.Narrow) :
    expectedLength l = some l.expectedLength := by
  have hcount : l.index.foldlM (fun n range => add n range.2) 0 = ofNat l.recordCount :=
    foldlM_add Prod.snd l.index (Nat.zero_le _)
  rw [expectedLength, total_eq narrow, hcount, checked_ofNat]
  by_cases hrecords : l.recordCount ≤ Decimal.maxWord64
  · rw [if_pos hrecords]
    show some (checked (ofNat (l.recordCount * l.widths.total))) = _
    rw [checked_ofNat]
    simp [Layout.expectedLength, hrecords]
  · rw [if_neg hrecords]
    show some (Except.error _) = _
    simp [Layout.expectedLength, hrecords]

theorem readFields_eq (narrow : w.Narrow) (record : Bytes) :
    readFields w record =
      some ⟨if w.kind = 0 then 1 else Bytes.toNat (record.take w.kind),
        Bytes.toNat ((record.drop w.kind).take w.second),
        Bytes.toNat ((record.drop (w.kind + w.second)).take w.third)⟩ := by
  have hread : ∀ {n : Nat} (bytes : Bytes), n ≤ FieldWidths.max →
      readField (bytes.take n) = some (Bytes.toNat (bytes.take n)) :=
    fun bytes hn => readField_eq (Nat.le_trans (List.length_take_le _ bytes) hn)
  have hkind : readKind w record =
      some (if w.kind = 0 then 1 else Bytes.toNat (record.take w.kind)) := by
    rw [readKind, hread record narrow.kind]
    split <;> rfl
  rw [readFields, add_kind_second narrow, Option.bind_eq_bind, Option.bind_some, add_third narrow,
    Option.bind_some, hkind, Option.bind_some, List.extract_eq_take_drop, List.extract_eq_take_drop,
    FieldWidths.total, Nat.add_sub_cancel_left, Nat.add_sub_cancel_left, hread _ narrow.second,
    hread _ narrow.third]
  rfl

theorem decodeRecord_eq (narrow : w.Narrow) (start done : Nat) (record : Bytes) :
    decodeRecord w start done record = some (Layout.decodeRecord w (start + done) record) := by
  unfold decodeRecord Layout.decodeRecord
  by_cases hnumber : start + done ≤ Decimal.maxWord64
  · rw [add_of_le hnumber, readFields_eq narrow, if_neg (Nat.not_lt.mpr hnumber)]
    rfl
  · rw [add_eq_none.mpr (Nat.not_le.mp hnumber), if_pos (Nat.not_le.mp hnumber)]

theorem decodeRange_eq (narrow : w.Narrow) (acc : List (Key × Entry)) (start done : Nat)
    (data : Bytes) (left : Nat) :
    decodeRange w acc start done data left =
      some (Layout.decodeRange w acc (start + done) data left) := by
  induction left generalizing acc done data with
  | zero => rfl
  | succ left ih =>
    rw [decodeRange, total_eq narrow, Layout.decodeRange]
    dsimp only [Option.bind_eq_bind, Option.bind_some]
    split
    · rfl
    · rw [decodeRecord_eq narrow, Option.bind_some]
      cases Layout.decodeRecord w (start + done) (data.take w.total) with
      | error e => rfl
      | ok entry => exact ih (entry.toList ++ acc) (done + 1) (data.drop w.total)

theorem decodeRanges_eq (narrow : w.Narrow) (acc : List (Key × Entry)) (data : Bytes)
    (index : List (Nat × Nat)) :
    decodeRanges w acc data index = some (Layout.decodeRanges w acc data index) := by
  induction index generalizing acc data with
  | nil => rfl
  | cons range rest ih =>
    obtain ⟨start, count⟩ := range
    rw [decodeRanges, decodeRange_eq narrow, Layout.decodeRanges, Nat.add_zero]
    dsimp only [Option.bind_eq_bind, Option.bind_some]
    cases Layout.decodeRange w acc start data count with
    | error e => rfl
    | ok found => exact ih found.1 found.2

theorem decodeEntries_eq {l : Layout} (narrow : l.widths.Narrow) (data : Bytes) :
    decodeEntries l data = some (l.decodeEntries data) := by
  rw [decodeEntries, total_eq narrow, Layout.decodeEntries]
  dsimp only [Option.bind_eq_bind, Option.bind_some]
  split
  · rfl
  · rw [expectedLength_eq narrow, Option.bind_some]
    cases l.expectedLength with
    | error e => rfl
    | ok expected =>
      dsimp only
      split
      · rfl
      · exact decodeRanges_eq narrow [] data l.index

/-! ## Writing -/

/-- The width that all of some numbers fit into. -/
def widthFor (values : List Nat) : Option Nat := do
  return (← values.mapM bytesNeeded).foldl max 0

/-- The widths that the fields of all records fit into. -/
def widths (x : Encoder) : Option FieldWidths := do
  return ⟨1, ← widthFor (x.fields.map Encoder.Fields.second),
    ← widthFor (x.fields.map Encoder.Fields.third)⟩

/-- The bytes of a record. -/
def encodeFields (w : FieldWidths) (f : Encoder.Fields) : Option Bytes := do
  return (← writeField f.kind w.kind) ++ (← writeField f.second w.second) ++
    (← writeField f.third w.third)

/-- The bytes of all records. How many bytes they take is known before the first is written. -/
def recordBytes (x : Encoder) (w : FieldWidths) : Option Bytes := do
  let _ ← mul x.fields.length (← total w)
  return (← x.fields.mapM (encodeFields w)).flatten

/-- Ascending numbers as ranges without gaps, behind a range that began with `start` and has `count`
    numbers so far. -/
def rangesFrom (start count : Nat) : List Nat → Option (List (Nat × Nat))
  | [] => some [(start, count)]
  | n :: rest => do
    if (← add start count) = n then rangesFrom start (← add count 1) rest
    else return (start, count) :: (← rangesFrom n 1 rest)

/-- Ascending numbers as ranges without gaps. -/
def ranges : List Nat → Option (List (Nat × Nat))
  | [] => some []
  | n :: rest => rangesFrom n 1 rest

/-- The dictionary of the stream, and its data. -/
def build (x : Encoder) : Option (Dict Object × Bytes) := do
  let w ← widths x
  let records ← recordBytes x w
  let index ← ranges x.numbers
  return x.assemble w records index (← x.size)

theorem widthFor_eq {values : List Nat} (h : ∀ v ∈ values, v ≤ Decimal.maxWord64) :
    widthFor values = some (Encoder.widthFor values) := by
  rw [widthFor, mapM_eq_some fun v hv => bytesNeeded_eq (h v hv)]
  rfl

theorem encodeFields_eq {w : FieldWidths} (narrow : w.Narrow) (f : Encoder.Fields) :
    encodeFields w f = some (Encoder.encodeFields w f) := by
  rw [encodeFields, writeField_eq f.kind narrow.kind, writeField_eq f.second narrow.second,
    writeField_eq f.third narrow.third]
  rfl

/-- Behind each number but the last there is room for the sum that the next one is compared with. -/
theorem rangesFrom_eq {numbers : List Nat} (ascending : numbers.Pairwise (· < ·))
    (words : ∀ n ∈ numbers, n ≤ Decimal.maxWord64) {start count : Nat}
    (behind : ∀ n ∈ numbers, start + count ≤ n)
    (countable : count + numbers.length ≤ Decimal.maxWord64) :
    rangesFrom start count numbers = some (Encoder.rangesFrom start count numbers) := by
  induction numbers generalizing start count with
  | nil => rfl
  | cons n rest ih =>
    obtain ⟨habove, hascending⟩ := List.pairwise_cons.mp ascending
    obtain ⟨hn, hwords⟩ := List.forall_mem_cons.mp words
    have hstart := behind n List.mem_cons_self
    rw [List.length_cons] at countable
    rw [rangesFrom, Encoder.rangesFrom, add_of_le (Nat.le_trans hstart hn), Option.bind_eq_bind,
      Option.bind_some]
    split
    · rename_i hnext
      have hbehind : ∀ m ∈ rest, start + (count + 1) ≤ m := by
        intro m hm
        have hm := habove m hm
        omega
      rw [add_of_le (by omega), Option.bind_some]
      exact ih hascending hwords hbehind (by omega)
    · rw [ih hascending hwords habove (by omega)]
      rfl

theorem ranges_eq {numbers : List Nat} (ascending : numbers.Pairwise (· < ·))
    (words : ∀ n ∈ numbers, n ≤ Decimal.maxWord64)
    (countable : numbers.length ≤ Decimal.maxWord64) :
    ranges numbers = some (Encoder.ranges numbers) := by
  cases numbers with
  | nil => rfl
  | cons n rest =>
    obtain ⟨habove, hascending⟩ := List.pairwise_cons.mp ascending
    rw [List.length_cons, Nat.add_comm] at countable
    exact rangesFrom_eq hascending (List.forall_mem_cons.mp words).2 habove countable

/-! ### All records of an encoder -/

variable {x : Encoder}

theorem narrow_widths (words : x.InWords) : x.widths.Narrow where
  kind := show 1 ≤ 8 by decide
  second := Encoder.widthFor_fields_le _ fun _ hr => words.second_le hr
  third := Encoder.widthFor_fields_le _ fun _ hr => Nat.le_trans (words.third_le hr) (by decide)

theorem widths_eq (words : x.InWords) : widths x = some x.widths := by
  have hfields : ∀ (get : Encoder.Fields → Nat),
      (∀ r ∈ x.records.entries, get (Encoder.fieldsAt r) ≤ Decimal.maxWord64) →
      widthFor (x.fields.map get) = some (Encoder.widthFor (x.fields.map get)) := by
    intro get hget
    refine widthFor_eq fun v hv => ?_
    obtain ⟨f, hf, rfl⟩ := List.mem_map.mp hv
    obtain ⟨r, hr, rfl⟩ := List.mem_map.mp hf
    exact hget r hr
  rw [widths, hfields _ fun r hr => words.second_le hr,
    hfields _ fun r hr => Nat.le_trans (words.third_le hr) (by decide)]
  rfl

/-- A record takes 17 bytes at most, and its fields took more than that before. -/
theorem recordBytes_eq (words : x.InWords) : recordBytes x x.widths = some x.recordBytes := by
  have narrow := narrow_widths words
  have hlength : x.fields.length * x.widths.total ≤ Decimal.maxWord64 := by
    have htotal : x.widths.total ≤ 24 := by
      obtain ⟨hkind, hsecond, hthird⟩ := narrow
      unfold FieldWidths.max at hkind hsecond hthird
      unfold FieldWidths.total
      omega
    calc x.fields.length * x.widths.total
      _ = x.records.entries.length * x.widths.total := by rw [Encoder.fields, List.length_map]
      _ ≤ x.records.entries.length * 24 := Nat.mul_le_mul_left _ htotal
      _ = 24 * x.records.entries.length := Nat.mul_comm ..
      _ ≤ Decimal.maxWord64 := Nat.le_trans words.held (by decide)
  rw [recordBytes, total_eq narrow, Option.bind_eq_bind, Option.bind_some, mul_of_le hlength,
    Option.bind_some, mapM_eq_some fun f _ => encodeFields_eq narrow f]
  rfl

theorem ranges_numbers (words : x.InWords) :
    ranges x.numbers = some (Encoder.ranges x.numbers) := by
  refine ranges_eq (Encoder.ascending_numbers x) words.number_le ?_
  have hheld := words.held
  unfold Decimal.maxSigned64 at hheld
  unfold Decimal.maxWord64
  rw [Encoder.numbers, List.length_map]
  omega

theorem size_of_highest {n : Nat} (h : n ∈ x.numbers) (highest : ∀ m ∈ x.numbers, m ≤ n) :
    x.size = ofNat (n + 1) := by
  rcases Encoder.size_cases x with ⟨hnil, _⟩ | ⟨last, hlast, highest', hsize⟩
  · rw [hnil] at h
    cases h
  · rwa [Nat.le_antisymm (highest last hlast) (highest' n h)] at hsize

theorem build_eq (words : x.InWords) : build x = x.build := by
  simp only [build, widths_eq words, recordBytes_eq words, ranges_numbers words,
    Option.bind_eq_bind, Option.bind_some]
  rw [Encoder.build_eq_assemble]
  cases x.size <;> rfl

/-- Nothing is built just if the greatest word is an object number. -/
theorem build_eq_none (words : x.InWords) : x.build = none ↔ Decimal.maxWord64 ∈ x.numbers := by
  constructor
  · intro hnone
    refine Classical.byContradiction fun habsent => ?_
    have hroom : ∀ n ∈ x.numbers, n < Decimal.maxWord64 := fun n hn =>
      Nat.lt_of_le_of_ne (words.number_le n hn) fun heq => habsent (heq ▸ hn)
    obtain ⟨built, hbuilt⟩ := Encoder.exists_build_iff.mpr hroom
    cases hnone.symm.trans hbuilt
  · intro hmem
    have hsize : x.size = none := by
      rw [size_of_highest hmem words.number_le]
      exact if_neg (Nat.not_succ_le_self _)
    rw [Encoder.build_eq_assemble, hsize]
    rfl

end Word

/-! ## Both ways -/

/-- Cross-reference streams are written and read in words of 64 bits as with natural numbers, but
    for one step. Whatever words the entries of an encoder have, its widths, its records and its
    index are computed in words, and so is all that it builds. The size is one more than the highest
    object number, as a natural number; only if that number is the greatest word there is no such
    word, and nothing is built. With any layout that a dictionary gives, every step for any data
    stays in words, or what leaves them is an error of the document. -/
theorem stream_arithmetic (x : Encoder) (entries : Dict Object) (l : Layout) :
    (x.InWords →
      Word.widths x = some x.widths ∧
      Word.recordBytes x x.widths = some x.recordBytes ∧
      Word.ranges x.numbers = some (Encoder.ranges x.numbers) ∧
      (∀ n ∈ x.numbers, (∀ m ∈ x.numbers, m ≤ n) →
        x.size = Word.ofNat (n + 1) ∧
        ∀ built, x.build = some built → built.1.get? "Size" = some (Encoder.integer (n + 1))) ∧
      Word.build x = x.build ∧
      (x.build = none ↔ Decimal.maxWord64 ∈ x.numbers)) ∧
    (Layout.ofDict entries = .ok l →
      Word.expectedLength l = some l.expectedLength ∧
      ∀ data, Word.decodeEntries l data = some (l.decodeEntries data)) := by
  constructor
  · intro words
    refine ⟨Word.widths_eq words, Word.recordBytes_eq words, Word.ranges_numbers words,
      fun n hn highest => ?_, Word.build_eq words, Word.build_eq_none words⟩
    have hsize := Word.size_of_highest hn highest
    refine ⟨hsize, fun built hbuilt => ?_⟩
    obtain ⟨size, hx, rfl⟩ := Encoder.buildWith_eq_some.mp hbuilt
    obtain ⟨rfl, _⟩ := Word.ofNat_eq_some.mp (hsize.symm.trans hx)
    exact Encoder.get?_size_stream x _ _
  · intro h
    have narrow := Layout.narrow_of_ofDict h
    exact ⟨Word.expectedLength_eq narrow, Word.decodeEntries_eq narrow⟩

/-- An encoder with the highest numbers whose size is a word. -/
def farEncoder : Encoder :=
  Encoder.plain.addEntries
    [(⟨Decimal.maxWord64 - 1, Decimal.maxWord32⟩, .direct Decimal.maxWord64),
      (⟨Decimal.maxWord64 - 2, 0⟩, .compressed Decimal.maxWord64 Decimal.maxWord32)]

theorem farEncoder_inWords : farEncoder.InWords :=
  ⟨by decide, by decide, by decide, by decide⟩

/-- A record with the greatest numbers that fit into its fields. -/
def farRecord : Encoder.Record :=
  (Decimal.maxSigned64, 0, .compressed Decimal.maxWord64 Decimal.maxWord32)

/-- A dictionary for this record alone, with fields that are as wide as fields can be. -/
def wideEntries : Dict Object :=
  Dict.empty.insert "Size" (.integer 3) |>.insert "W" (.array [.integer 8, .integer 8, .integer 8])
    |>.insert "Index" (.array [.integer Decimal.maxSigned64, .integer 1])

theorem farthest_numbers :
    Word.build farEncoder = farEncoder.build ∧ farEncoder.build ≠ none ∧
    farEncoder.size = some Decimal.maxWord64 ∧
    ∃ l, Layout.ofDict wideEntries = .ok l ∧
      Word.decodeEntries l (Encoder.written l.widths [farRecord]) =
        some (.ok [(⟨Decimal.maxSigned64, 0⟩,
          .compressed Decimal.maxWord64 Decimal.maxWord32)]) := by
  let l : Layout := ⟨⟨8, 8, 8⟩, [(Decimal.maxSigned64, 1)], 3⟩
  obtain ⟨encodes, decodes⟩ := stream_arithmetic farEncoder wideEntries l
  obtain ⟨_, _, _, hsize, hbuild, hnone⟩ := encodes farEncoder_inWords
  have hlayout : Layout.ofDict wideEntries = .ok l := by rfl
  have legible : ∀ r ∈ [farRecord], Encoder.Legible l.widths r := by
    intro r hr
    obtain rfl := List.mem_singleton.mp hr
    exact ⟨nofun, by decide, by decide, by decide, fun _ _ _ => rfl⟩
  have hread := Encoder.decodeEntries_written (l := l) (by decide) rfl legible (by decide)
    (by decide) []
  refine ⟨hbuild, fun h => absurd (hnone.mp h) (by decide),
    (hsize (Decimal.maxWord64 - 1) ?_ ?_).1, l, hlayout, ?_⟩
  · decide
  · decide
  · rw [(decodes hlayout).2]
    exact congrArg some hread

/-- An encoder with the greatest word as an object number. -/
def highestEncoder : Encoder := Encoder.plain.addEntries [(⟨Decimal.maxWord64, 0⟩, .direct 7)]

/-- The number behind the highest one is no word, so there is no size, and nothing is built. -/
theorem highest_number_overflows :
    highestEncoder.InWords ∧ Decimal.maxWord64 ∈ highestEncoder.numbers ∧
    highestEncoder.size = none ∧ highestEncoder.build = none := by
  have words : highestEncoder.InWords := ⟨by decide, by decide, by decide, by decide⟩
  exact ⟨words, by decide, by decide, (Word.build_eq_none words).mpr (by decide)⟩

end CrossReference
