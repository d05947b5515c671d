import CrossReference.Section.Encoder
import Mathlib.Algebra.Group.Nat.Defs

set_option autoImplicit false

/-! # Records of cross-reference streams

Records that are written in fields of any widths are read back by a layout with the same widths and
the same numbers, if every number fits into its field (`Legible`). So is a record
(`decodeRecord_encodeFields`), a range of them, and a whole index, however its ranges divide the
records (`decodeRanges_encode`), whatever stands behind the last one (`decodeEntries_written`). The
ranges of an encoder list its object numbers, no more and no less (`numbersOf_ranges`). -/

namespace CrossReference

/-! ## Widths -/

namespace Bytes

/-- A number can be written in as many bytes as it needs. -/
theorem lt_pow_width (value : Nat) : value < 256 ^ width value := by
  unfold width
  split
  · rename_i hzero
    rw [hzero]
    decide
  · have hbits : value < 2 ^ (value.log2 + 1) := Nat.lt_log2_self
    have hbytes : 2 ^ (value.log2 + 1) ≤ 2 ^ (8 * (value.log2 / 8 + 1)) :=
      Nat.pow_le_pow_right (by decide) (by omega)
    rw [Nat.pow_mul] at hbytes
    exact Nat.lt_of_lt_of_le hbits hbytes

theorem width_le {value bytes : Nat} (h : value < 256 ^ bytes) : width value ≤ bytes := by
  unfold width
  split
  · exact Nat.zero_le _
  · rename_i hzero
    have hbits : value < 2 ^ (8 * bytes) := by rwa [Nat.pow_mul]
    have hlog := (Nat.log2_lt hzero).mpr hbits
    omega

theorem lt_pow_of_width_le {value bytes : Nat} (h : width value ≤ bytes) : value < 256 ^ bytes :=
  Nat.lt_of_lt_of_le (lt_pow_width value) (Nat.pow_le_pow_right (by decide) h)

theorem toNat_bigEndian_of_lt {value bytes : Nat} (h : value < 256 ^ bytes) :
    toNat (bigEndian value bytes) = value := by
  rw [toNat_bigEndian]
  exact Nat.mod_eq_of_lt h

end Bytes

namespace Encoder

theorem le_foldl_max {widths : List Nat} {n : Nat} :
    n ≤ widths.foldl max n ∧ ∀ w ∈ widths, w ≤ widths.foldl max n := by
  induction widths generalizing n with
  | nil => exact ⟨Nat.le_refl n, fun w hw => (List.not_mem_nil hw).elim⟩
  | cons first rest ih =>
    obtain ⟨hmax, hrest⟩ := ih (n := max n first)
    rw [List.foldl_cons]
    refine ⟨by omega, fun w hw => ?_⟩
    rcases List.mem_cons.mp hw with rfl | hw
    · omega
    · exact hrest w hw

theorem foldl_max_le {widths : List Nat} {n bound : Nat} (hn : n ≤ bound)
    (h : ∀ w ∈ widths, w ≤ bound) : widths.foldl max n ≤ bound := by
  induction widths generalizing n with
  | nil => exact hn
  | cons first rest ih =>
    have hfirst := h first List.mem_cons_self
    exact ih (by omega) fun w hw => h w (List.mem_cons_of_mem _ hw)

theorem width_le_widthFor {values : List Nat} {value : Nat} (h : value ∈ values) :
    Bytes.width value ≤ widthFor values :=
  le_foldl_max.2 _ (List.mem_map_of_mem h)

theorem widthFor_le {values : List Nat} {bytes : Nat} (h : ∀ v ∈ values, v < 256 ^ bytes) :
    widthFor values ≤ bytes := by
  refine foldl_max_le (Nat.zero_le _) fun w hw => ?_
  obtain ⟨v, hv, rfl⟩ := List.mem_map.mp hw
  exact Bytes.width_le (h v hv)

end Encoder

/-! ## One record -/

namespace Encoder

/-- What an encoder keeps for an object number: its generation and its entry. -/
abbrev Record := Nat × Nat × Entry

/-- The entry of a record with its key. -/
def listed (r : Record) : Key × Entry := (⟨r.1, r.2.1⟩, r.2.2)

/-- The fields that a record is written in. -/
def fieldsAt (r : Record) : Fields := fieldsOf r.2.1 r.2.2

/-- A record that can be written and read: its numbers are words of the sizes that the entries of a
    table have, the number behind that of its object is a word too, and a compressed object has the
    only generation that it can have. -/
structure Storable (r : Record) : Prop where
  number_lt : r.1 < Decimal.maxWord64
  second_le : (fieldsAt r).second ≤ Decimal.maxWord64
  third_le : (fieldsAt r).third ≤ Decimal.maxWord32
  generation : ∀ stream index, r.2.2 = .compressed stream index → r.2.1 = 0

/-- A record that can be written in fields of given widths and read from them. Without a field for
    the type, an object stands in the document itself. -/
structure Legible (w : FieldWidths) (r : Record) : Prop where
  kind : w.kind = 0 → ∃ offset, r.2.2 = .direct offset
  second_lt : (fieldsAt r).second < 256 ^ w.second
  third_lt : (fieldsAt r).third < 256 ^ w.third
  third_le : (fieldsAt r).third ≤ Decimal.maxWord32
  generation : ∀ stream index, r.2.2 = .compressed stream index → r.2.1 = 0

variable {w : FieldWidths} {r : Record}

theorem length_encodeFields (w : FieldWidths) (f : Fields) :
    (encodeFields w f).length = w.total := by
  simp [encodeFields, FieldWidths.total, Nat.add_assoc]

theorem kind_fieldsAt_le (r : Record) : (fieldsAt r).kind ≤ 2 := by
  obtain ⟨number, generation, e⟩ := r
  cases e <;> simp [fieldsAt, fieldsOf]

theorem Legible.entryOf_fieldsAt (legible : Legible w r) :
    Layout.entryOf r.1 (fieldsAt r).kind (fieldsAt r).second (fieldsAt r).third =
      some (listed r) := by
  obtain ⟨number, generation, e⟩ := r
  cases e with
  | free next => rfl
  | direct offset => rfl
  | compressed stream index =>
    obtain rfl : generation = 0 := legible.generation stream index rfl
    rfl

/-- The type is read where it was written, and also where it was left out. -/
theorem Legible.kind_eq (legible : Legible w r) :
    (if w.kind = 0 then 1 else Bytes.toNat (Bytes.bigEndian (fieldsAt r).kind w.kind)) =
      (fieldsAt r).kind := by
  split
  · rename_i hzero
    obtain ⟨offset, hdirect⟩ := legible.kind hzero
    rw [fieldsAt, hdirect]
    rfl
  · rename_i hkind
    have hbyte : 256 ^ 1 ≤ 256 ^ w.kind := Nat.pow_le_pow_right (by decide) (by omega)
    have hle := kind_fieldsAt_le r
    exact Bytes.toNat_bigEndian_of_lt (by omega)

/-- The fields of a record are read where they were written. -/
theorem decodeRecord_encodeFields (legible : Legible w r) (hnumber : r.1 ≤ Decimal.maxWord64) :
    Layout.decodeRecord w r.1 (encodeFields w (fieldsAt r)) = .ok (some (listed r)) := by
  let f := fieldsAt r
  have hfirst : (encodeFields w f).take w.kind = Bytes.bigEndian f.kind w.kind := by
    rw [encodeFields, List.append_assoc]
    exact List.take_left' (Bytes.length_bigEndian _ _)
  have hsecond : ((encodeFields w f).drop w.kind).take w.second =
      Bytes.bigEndian f.second w.second := by
    rw [encodeFields, List.append_assoc, List.drop_left' (Bytes.length_bigEndian _ _)]
    exact List.take_left' (Bytes.length_bigEndian _ _)
  have hlast : ((encodeFields w f).drop (w.kind + w.second)).take w.third =
      Bytes.bigEndian f.third w.third := by
    rw [encodeFields, List.drop_left' (by simp)]
    exact List.take_of_length_le (by simp)
  unfold Layout.decodeRecord
  rw [hfirst, hsecond, hlast, legible.kind_eq, Bytes.toNat_bigEndian_of_lt legible.second_lt,
    Bytes.toNat_bigEndian_of_lt legible.third_lt]
  dsimp only
  rw [if_neg (Nat.not_lt.mpr hnumber), if_neg (Nat.not_lt.mpr legible.third_le),
    legible.entryOf_fieldsAt]

/-! ## Many records -/

/-- The bytes of records. -/
def written (w : FieldWidths) (rs : List Record) : Bytes :=
  rs.flatMap fun r => encodeFields w (fieldsAt r)

theorem length_written (w : FieldWidths) (rs : List Record) :
    (written w rs).length = rs.length * w.total := by
  induction rs with
  | nil => simp [written]
  | cons r rest ih =>
    have hstep : written w (r :: rest) = encodeFields w (fieldsAt r) ++ written w rest := rfl
    rw [hstep, List.length_append, ih, length_encodeFields, List.length_cons, Nat.succ_mul,
      Nat.add_comm]

variable {rs : List Record}

/-- The records of a range are read back, and what is behind them is left. -/
theorem decodeRange_encode (legible : ∀ r ∈ rs, Legible w r)
    (words : ∀ r ∈ rs, r.1 ≤ Decimal.maxWord64) {start : Nat}
    (hnumbers : rs.map (·.1) = List.range' start rs.length) (acc : List (Key × Entry))
    (rest : Bytes) :
    Layout.decodeRange w acc start (written w rs ++ rest) rs.length =
      .ok ((rs.map listed).reverse ++ acc, rest) := by
  induction rs generalizing start acc with
  | nil => rfl
  | cons r later ih =>
    obtain ⟨rfl, hlater⟩ :
        r.1 = start ∧ later.map (·.1) = List.range' (start + 1) later.length := by
      rw [List.map_cons, List.length_cons, List.range'_succ] at hnumbers
      exact List.cons.inj hnumbers
    have hdata : written w (r :: later) ++ rest =
        encodeFields w (fieldsAt r) ++ (written w later ++ rest) := List.append_assoc ..
    have htake : (written w (r :: later) ++ rest).take w.total = encodeFields w (fieldsAt r) := by
      rw [hdata]
      exact List.take_left' (length_encodeFields w _)
    have hdrop : (written w (r :: later) ++ rest).drop w.total = written w later ++ rest := by
      rw [hdata]
      exact List.drop_left' (length_encodeFields w _)
    rw [List.length_cons, Layout.decodeRange, htake, hdrop,
      if_neg (by rw [length_encodeFields]; exact Nat.lt_irrefl _),
      decodeRecord_encodeFields (legible r List.mem_cons_self) (words r List.mem_cons_self)]
    dsimp only
    rw [ih (fun r hr => legible r (List.mem_cons_of_mem _ hr))
      (fun r hr => words r (List.mem_cons_of_mem _ hr)) hlater]
    simp

/-- The object numbers that an index is for, in the order of the records. -/
def numbersOf (index : List (Nat × Nat)) : List Nat :=
  index.flatMap fun range => List.range' range.1 range.2

/-- The records of an index are read back, by induction on its ranges: each of them takes as many
    records as it has numbers. -/
theorem decodeRanges_encode (legible : ∀ r ∈ rs, Legible w r)
    (words : ∀ r ∈ rs, r.1 ≤ Decimal.maxWord64) {index : List (Nat × Nat)}
    (hnumbers : rs.map (·.1) = numbersOf index) (acc : List (Key × Entry)) (rest : Bytes) :
    Layout.decodeRanges w acc (written w rs ++ rest) index =
      .ok (acc.reverse ++ rs.map listed) := by
  induction index generalizing rs acc with
  | nil =>
    obtain rfl := List.map_eq_nil_iff.mp hnumbers
    rw [List.map_nil, List.append_nil]
    rfl
  | cons range later ih =>
    obtain ⟨start, count⟩ := range
    obtain ⟨here, there, rfl, hhere, hthere⟩ := List.map_eq_append_iff.mp hnumbers
    have hcount : here.length = count := by
      have hlength := congrArg List.length hhere
      rwa [List.length_map, List.length_range'] at hlength
    subst hcount
    have hdata : written w (here ++ there) ++ rest =
        written w here ++ (written w there ++ rest) := by
      rw [written, List.flatMap_append, List.append_assoc]
      rfl
    rw [hdata, Layout.decodeRanges,
      decodeRange_encode (fun r hr => legible r (List.mem_append_left _ hr))
        (fun r hr => words r (List.mem_append_left _ hr)) hhere]
    dsimp only
    rw [ih (fun r hr => legible r (List.mem_append_right _ hr))
      (fun r hr => words r (List.mem_append_right _ hr)) hthere]
    simp

/-! ## All records of a layout -/

variable {l : Layout}

theorem recordCount_eq (l : Layout) : l.recordCount = (numbersOf l.index).length := by
  have hsum : ∀ (index : List (Nat × Nat)) (n : Nat),
      index.foldl (fun n range => n + range.2) n = n + (numbersOf index).length := by
    intro index
    induction index with
    | nil => intro n; rfl
    | cons range rest ih =>
      intro n
      have hstep : numbersOf (range :: rest) = List.range' range.1 range.2 ++ numbersOf rest := rfl
      rw [List.foldl_cons, ih, hstep, List.length_append, List.length_range', Nat.add_assoc]
  exact (hsum l.index 0).trans (Nat.zero_add _)

/-- A layout expects as many bytes as its records take. -/
theorem expectedLength_eq (htotal : l.widths.total ≠ 0)
    (hnumbers : rs.map (·.1) = numbersOf l.index)
    (hlength : (written l.widths rs).length ≤ Decimal.maxWord64) :
    l.expectedLength = .ok (written l.widths rs).length := by
  have hcount : l.recordCount = rs.length := by
    rw [recordCount_eq, ← hnumbers, List.length_map]
  have hwords : rs.length ≤ (written l.widths rs).length := by
    rw [length_written]
    exact Nat.le_mul_of_pos_right _ (Nat.pos_of_ne_zero htotal)
  unfold Layout.expectedLength
  rw [hcount, ← length_written]
  exact if_pos (by simp only [Bool.and_eq_true, decide_eq_true_eq]; omega)

/-- The records of a layout are read back, and what is behind them is ignored. -/
theorem decodeEntries_written (htotal : l.widths.total ≠ 0)
    (hnumbers : rs.map (·.1) = numbersOf l.index) (legible : ∀ r ∈ rs, Legible l.widths r)
    (words : ∀ r ∈ rs, r.1 ≤ Decimal.maxWord64)
    (hlength : (written l.widths rs).length ≤ Decimal.maxWord64) (rest : Bytes) :
    l.decodeEntries (written l.widths rs ++ rest) = .ok (rs.map listed) := by
  unfold Layout.decodeEntries
  rw [if_neg htotal, expectedLength_eq htotal hnumbers hlength]
  dsimp only
  rw [if_neg (by rw [List.length_append]; omega)]
  exact decodeRanges_encode legible words hnumbers [] rest

/-! ## Ranges -/

theorem numbersOf_rangesFrom (numbers : List Nat) (start count : Nat) :
    numbersOf (rangesFrom start count numbers) = List.range' start count ++ numbers := by
  induction numbers generalizing start count with
  | nil => simp [rangesFrom, numbersOf]
  | cons n rest ih =>
    unfold rangesFrom
    split
    · rename_i hnext
      rw [ih, List.range'_concat, ← hnext]
      simp
    · have hstep : numbersOf ((start, count) :: rangesFrom n 1 rest) =
          List.range' start count ++ numbersOf (rangesFrom n 1 rest) := rfl
      rw [hstep, ih]
      rfl

/-- The ranges of numbers list the same numbers. -/
theorem numbersOf_ranges (numbers : List Nat) : numbersOf (ranges numbers) = numbers := by
  cases numbers with
  | nil => rfl
  | cons n rest => exact numbersOf_rangesFrom rest n 1

theorem pos_of_mem_rangesFrom {numbers : List Nat} {start count : Nat} (hcount : 0 < count)
    {range : Nat × Nat} (h : range ∈ rangesFrom start count numbers) : 0 < range.2 := by
  induction numbers generalizing start count with
  | nil =>
    rw [List.mem_singleton.mp h]
    exact hcount
  | cons n rest ih =>
    unfold rangesFrom at h
    split at h
    · exact ih (Nat.succ_pos _) h
    · rcases List.mem_cons.mp h with rfl | h
      · exact hcount
      · exact ih Nat.one_pos h

/-- The last number of each range is one of the numbers. -/
theorem last_mem_of_mem_ranges {numbers : List Nat} {range : Nat × Nat}
    (h : range ∈ ranges numbers) : 0 < range.2 ∧ range.1 + range.2 - 1 ∈ numbers := by
  have hpos : 0 < range.2 := by
    cases numbers with
    | nil => cases h
    | cons n rest => exact pos_of_mem_rangesFrom Nat.one_pos h
  refine ⟨hpos, ?_⟩
  rw [← numbersOf_ranges numbers]
  refine List.mem_flatMap.mpr ⟨range, h, List.mem_range'_1.mpr ?_⟩
  omega

end Encoder

end CrossReference
