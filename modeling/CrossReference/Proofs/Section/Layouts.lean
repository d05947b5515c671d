import CrossReference.Proofs.Section.Records

set_option autoImplicit false

/-! # Layouts of any form

The widths and the ranges of a layout need not be those that an encoder chooses. Fields may be wider
than their numbers or take no bytes, ranges may be out of order, overlap or be empty. In any case
the records of a layout are read back from their bytes, and not from a part of them
(`decodeEntries_inverts`). The length of the data is compared with that of the records before the
first of them is read, so no range finds too little data (`decodeEntries_ne_outOfRecords`). -/

namespace CrossReference.Layout

variable {w : FieldWidths}

/-! ## Enough data -/

theorem decodeRecord_ne_outOfRecords (w : FieldWidths) (number : Nat) (record : Bytes) :
    decodeRecord w number record ≠ .error (.badStream .outOfRecords) := by
  unfold decodeRecord
  dsimp only
  split
  · exact nofun
  · split <;> exact nofun

/-- A range that has enough data does not miss any, and it leaves what is behind its records. -/
theorem decodeRange_of_length_le {count : Nat} {data : Bytes}
    (enough : count * w.total ≤ data.length) (acc : List (Key × Entry)) (number : Nat) :
    decodeRange w acc number data count ≠ .error (.badStream .outOfRecords) ∧
      ∀ acc' rest, decodeRange w acc number data count = .ok (acc', rest) →
        rest = data.drop (count * w.total) := by
  induction count generalizing data acc number with
  | zero =>
    refine ⟨fun h => ?_, fun acc' rest h => ?_⟩
    · cases h
    · cases h
      rw [Nat.zero_mul, List.drop_zero]
  | succ count ih =>
    rw [Nat.succ_mul] at enough
    have hrecord : ¬(data.take w.total).length < w.total := by
      rw [List.length_take]
      omega
    rw [decodeRange, if_neg hrecord]
    cases hread : decodeRecord w number (data.take w.total) with
    | error e =>
      refine ⟨fun h => ?_, fun acc' rest h => ?_⟩
      · rw [Except.error.inj h] at hread
        exact decodeRecord_ne_outOfRecords w number _ hread
      · cases h
    | ok entry =>
      have hrest : count * w.total ≤ (data.drop w.total).length := by
        rw [List.length_drop]
        omega
      obtain ⟨hne, hleft⟩ := ih hrest (entry.toList ++ acc) (number + 1)
      refine ⟨hne, fun acc' rest h => ?_⟩
      rw [hleft acc' rest h, List.drop_drop, Nat.succ_mul, Nat.add_comm]

/-- Ranges that together have enough data do not miss any, by induction on the ranges: each of them
    leaves enough for those behind it. -/
theorem decodeRanges_ne_outOfRecords {index : List (Nat × Nat)} {data : Bytes}
    (enough : (Encoder.numbersOf index).length * w.total ≤ data.length)
    (acc : List (Key × Entry)) :
    decodeRanges w acc data index ≠ .error (.badStream .outOfRecords) := by
  induction index generalizing data acc with
  | nil => exact nofun
  | cons range later ih =>
    obtain ⟨start, count⟩ := range
    have hlength : (Encoder.numbersOf ((start, count) :: later)).length * w.total =
        count * w.total + (Encoder.numbersOf later).length * w.total := by
      rw [Encoder.numbersOf, List.flatMap_cons, List.length_append, List.length_range',
        Nat.add_mul]
      rfl
    have hhere : count * w.total ≤ data.length := by omega
    obtain ⟨hne, hleft⟩ := decodeRange_of_length_le hhere acc start
    rw [decodeRanges]
    cases hrange : decodeRange w acc start data count with
    | error e =>
      rw [hrange] at hne
      exact fun h => hne (congrArg _ (Except.error.inj h))
    | ok found =>
      obtain ⟨acc', rest⟩ := found
      have hrest : (Encoder.numbersOf later).length * w.total ≤ rest.length := by
        rw [hleft acc' rest hrange, List.length_drop]
        omega
      exact ih hrest acc'

/-- Too little data is found out before the first record is read. -/
theorem decodeEntries_ne_outOfRecords (l : Layout) (data : Bytes) :
    l.decodeEntries data ≠ .error (.badStream .outOfRecords) := by
  unfold decodeEntries expectedLength
  split
  · exact nofun
  · dsimp only
    by_cases hwords : (l.recordCount ≤ Decimal.maxWord64 &&
        l.recordCount * l.widths.total ≤ Decimal.maxWord64) = true
    · rw [if_pos hwords]
      dsimp only
      split
      · exact nofun
      · rename_i hlength
        rw [Encoder.recordCount_eq] at hlength
        exact decodeRanges_ne_outOfRecords (Nat.not_lt.mp hlength) []
    · rw [if_neg hwords]
      exact nofun

/-! ## All layouts -/

/-- With too little data for the records of a layout none of them is read. -/
theorem decodeEntries_of_length_lt {l : Layout} {rs : List Encoder.Record}
    (htotal : l.widths.total ≠ 0) (hnumbers : rs.map (·.1) = Encoder.numbersOf l.index)
    (hlength : (Encoder.written l.widths rs).length ≤ Decimal.maxWord64) {data : Bytes}
    (short : data.length < (Encoder.written l.widths rs).length) :
    l.decodeEntries data = .error (.badStream
      (.shortData data.length (Encoder.written l.widths rs).length)) := by
  unfold decodeEntries
  rw [if_neg htotal, Encoder.expectedLength_eq htotal hnumbers hlength]
  exact if_pos short

/-- The numbers of ranges that end in words are words. -/
theorem le_maxWord64_of_mem_numbersOf {index : List (Nat × Nat)}
    (bounded : ∀ range ∈ index, range.1 + range.2 ≤ 2 ^ 64) {n : Nat}
    (h : n ∈ Encoder.numbersOf index) : n ≤ Decimal.maxWord64 := by
  obtain ⟨range, hrange, hn⟩ := List.mem_flatMap.mp h
  have hlt := (List.mem_range'_1.mp hn).2
  have hbound := bounded range hrange
  unfold Decimal.maxWord64
  omega

/-- Any layout with records of at least one byte, and with numbers that are words, reads back what
    is written for it: one record after the other, each for the number that the ranges give at its
    position, and each with fields that fit. What stands behind the last record does not matter. Of
    a part of the records it gives none but an error that says how much is missing, and no layout
    ever runs out of records while it reads them. -/
theorem decodeEntries_inverts {l : Layout} {rs : List Encoder.Record}
    (positive : 0 < l.widths.total)
    (bounded : ∀ range ∈ l.index, range.1 + range.2 ≤ 2 ^ 64)
    (assigned : rs.map (·.1) = Encoder.numbersOf l.index)
    (legible : ∀ r ∈ rs, Encoder.Legible l.widths r)
    (countable : (Encoder.written l.widths rs).length < 2 ^ 64) :
    (∀ surplus, l.decodeEntries (Encoder.written l.widths rs ++ surplus) =
      .ok (rs.map Encoder.listed)) ∧
    (∀ surplus n, n < (Encoder.written l.widths rs).length →
      l.decodeEntries ((Encoder.written l.widths rs ++ surplus).take n) =
        .error (.badStream (.shortData n (Encoder.written l.widths rs).length))) ∧
    ∀ (other : Layout) (data : Bytes),
      other.decodeEntries data ≠ .error (.badStream .outOfRecords) := by
  have htotal : l.widths.total ≠ 0 := Nat.ne_of_gt positive
  have hlength : (Encoder.written l.widths rs).length ≤ Decimal.maxWord64 := by
    unfold Decimal.maxWord64
    omega
  have words : ∀ r ∈ rs, r.1 ≤ Decimal.maxWord64 := by
    intro r hr
    have hmem : r.1 ∈ rs.map (·.1) := List.mem_map_of_mem hr
    rw [assigned] at hmem
    exact le_maxWord64_of_mem_numbersOf bounded hmem
  refine ⟨?_, ?_, decodeEntries_ne_outOfRecords⟩
  · exact Encoder.decodeEntries_written htotal assigned legible words hlength
  · intro surplus n hn
    have htake : ((Encoder.written l.widths rs ++ surplus).take n).length = n := by
      rw [List.length_take, List.length_append]
      omega
    have hshort : ((Encoder.written l.widths rs ++ surplus).take n).length <
        (Encoder.written l.widths rs).length := by rwa [htake]
    have herror := decodeEntries_of_length_lt htotal assigned hlength hshort
    rwa [htake] at herror

/-- A layout with fields wider than they need be, and with ranges of which one is empty, one ends at
    the greatest word and two overlap. -/
def scattered : Layout where
  widths := ⟨2, 3, 1⟩
  index := [(7, 2), (3, 0), (0xFFFFFFFFFFFFFFFF, 1), (8, 1)]
  size := 9

/-- Records for it. -/
def scatteredRecords : List Encoder.Record :=
  [(7, 255, .free 5), (8, 0, .compressed 9 2), (0xFFFFFFFFFFFFFFFF, 1, .direct 70000),
    (8, 3, .direct 0)]

theorem scattered_inverts :
    scattered.decodeEntries (Encoder.written scattered.widths scatteredRecords ++ [0x0A]) =
        .ok (scatteredRecords.map Encoder.listed) ∧
      scattered.decodeEntries ((Encoder.written scattered.widths scatteredRecords).take 23) =
        .error (.badStream (.shortData 23 24)) := by
  have legible : ∀ r ∈ scatteredRecords, Encoder.Legible scattered.widths r := by
    simp only [scatteredRecords, List.forall_mem_cons]
    exact ⟨⟨nofun, by decide, by decide, by decide, nofun⟩,
      ⟨nofun, by decide, by decide, by decide, fun _ _ _ => rfl⟩,
      ⟨nofun, by decide, by decide, by decide, nofun⟩,
      ⟨nofun, by decide, by decide, by decide, nofun⟩, nofun⟩
  obtain ⟨whole, part, _⟩ :=
    decodeEntries_inverts (by decide) (by decide) (by decide) legible (by decide)
  refine ⟨whole [0x0A], ?_⟩
  have short := part [] 23 (by decide)
  rwa [List.append_nil] at short

end CrossReference.Layout
