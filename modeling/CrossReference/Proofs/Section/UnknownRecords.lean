import CrossReference.Proofs.Section.Layouts
import Mathlib.Data.List.Forall2

set_option autoImplicit false

/-! # Records of unknown types

A record of a type above 2 stands for no entry, so what its second and third field hold cannot show
among the entries. It can show in that there are none: the third field is compared with 32 bits
before the type is looked at, and a record that fails there makes all others fail with it.
`decodeEntries_eq` says what becomes of any data with enough records, and
`decodeEntries_overwritten` what two data with the same records of known types have in common. -/

namespace CrossReference.Layout

variable {w : FieldWidths}

/-! ## Fields -/

/-- The type of a record. Without a field for it, that is the one of a direct object. -/
def kindField (w : FieldWidths) (record : Bytes) : Nat :=
  if w.kind = 0 then 1 else Bytes.toNat (record.take w.kind)

/-- The second field of a record. -/
def secondField (w : FieldWidths) (record : Bytes) : Nat :=
  Bytes.toNat ((record.drop w.kind).take w.second)

/-- The third field of a record. -/
def thirdField (w : FieldWidths) (record : Bytes) : Nat :=
  Bytes.toNat ((record.drop (w.kind + w.second)).take w.third)

/-- Whether a record is refused: its third field is no word of 32 bits. -/
def refuses (w : FieldWidths) (r : Nat × Bytes) : Bool := Decimal.maxWord32 < thirdField w r.2

theorem refuses_iff {r : Nat × Bytes} :
    refuses w r = true ↔ Decimal.maxWord32 < thirdField w r.2 := decide_eq_true_iff

/-- The complaint about a record that is refused. -/
def refusal (w : FieldWidths) (r : Nat × Bytes) : Error :=
  .badStream (.thirdField (thirdField w r.2) r.1)

/-- The entry that a record for an object number stands for. -/
def listedBy (w : FieldWidths) (r : Nat × Bytes) : Option (Key × Entry) :=
  entryOf r.1 (kindField w r.2) (secondField w r.2) (thirdField w r.2)

theorem listedBy_of_unknown {r : Nat × Bytes} (unknown : 2 < kindField w r.2) :
    listedBy w r = none := by
  unfold listedBy entryOf
  split
  case h_4 => rfl
  all_goals omega

theorem decodeRecord_eq {r : Nat × Bytes} (word : r.1 ≤ Decimal.maxWord64) :
    decodeRecord w r.1 r.2 =
      if refuses w r then .error (refusal w r) else .ok (listedBy w r) := by
  unfold decodeRecord
  dsimp only
  rw [if_neg (Nat.not_lt.mpr word)]
  simp only [refuses, decide_eq_true_eq]
  rfl

/-! ## Records in data -/

/-- The records in data for object numbers, one after the other. -/
def recordsFor (w : FieldWidths) : List Nat → Bytes → List (Nat × Bytes)
  | [], _ => []
  | n :: rest, data => (n, data.take w.total) :: recordsFor w rest (data.drop w.total)

/-- The records in data that the index of a layout describes. -/
def records (l : Layout) (data : Bytes) : List (Nat × Bytes) :=
  recordsFor l.widths (Encoder.numbersOf l.index) data

theorem recordsFor_append (xs ys : List Nat) (data : Bytes) :
    recordsFor w (xs ++ ys) data =
      recordsFor w xs data ++ recordsFor w ys (data.drop (xs.length * w.total)) := by
  induction xs generalizing data with
  | nil => simp [recordsFor]
  | cons n rest ih =>
    rw [List.cons_append, recordsFor, ih, recordsFor, List.drop_drop, List.length_cons,
      Nat.succ_mul, Nat.add_comm w.total]
    rfl

/-- A range of records with enough data gives their entries, unless one of them is refused. -/
theorem decodeRange_eq {count start : Nat} {data : Bytes}
    (enough : count * w.total ≤ data.length)
    (words : ∀ n ∈ List.range' start count, n ≤ Decimal.maxWord64) (acc : List (Key × Entry)) :
    decodeRange w acc start data count =
      match (recordsFor w (List.range' start count) data).find? (refuses w) with
      | some r => .error (refusal w r)
      | none =>
        .ok (((recordsFor w (List.range' start count) data).filterMap (listedBy w)).reverse ++ acc,
          data.drop (count * w.total)) := by
  induction count generalizing start data acc with
  | zero => simp [decodeRange, recordsFor]
  | succ count ih =>
    rw [Nat.succ_mul] at enough
    have hrecord : ¬(data.take w.total).length < w.total := by
      rw [List.length_take]
      omega
    have hrest : count * w.total ≤ (data.drop w.total).length := by
      rw [List.length_drop]
      omega
    rw [List.range'_succ] at words
    obtain ⟨hword, hwords⟩ := List.forall_mem_cons.mp words
    have hdecode := decodeRecord_eq (w := w) (r := (start, data.take w.total)) hword
    rw [decodeRange, if_neg hrecord, hdecode, List.range'_succ, recordsFor, List.find?_cons]
    cases hrefused : refuses w (start, data.take w.total) with
    | true => rfl
    | false =>
      dsimp only
      rw [if_neg Bool.false_ne_true]
      dsimp only
      rw [ih hrest hwords, List.filterMap_cons, List.drop_drop, Nat.succ_mul, Nat.add_comm w.total]
      cases (recordsFor w (List.range' (start + 1) count) (data.drop w.total)).find?
        (refuses w) with
      | some r => rfl
      | none => cases listedBy w (start, data.take w.total) <;> simp

/-- Ranges with enough data give the entries of their records in order, unless one of them is
    refused: then there are none, but the complaint about the first of those. -/
theorem decodeRanges_eq {index : List (Nat × Nat)} {data : Bytes}
    (enough : (Encoder.numbersOf index).length * w.total ≤ data.length)
    (words : ∀ n ∈ Encoder.numbersOf index, n ≤ Decimal.maxWord64) (acc : List (Key × Entry)) :
    decodeRanges w acc data index =
      match (recordsFor w (Encoder.numbersOf index) data).find? (refuses w) with
      | some r => .error (refusal w r)
      | none =>
        .ok (acc.reverse ++
          (recordsFor w (Encoder.numbersOf index) data).filterMap (listedBy w)) := by
  induction index generalizing data acc with
  | nil => simp [decodeRanges, Encoder.numbersOf, recordsFor]
  | cons range later ih =>
    obtain ⟨start, count⟩ := range
    have hsplit : Encoder.numbersOf ((start, count) :: later) =
        List.range' start count ++ Encoder.numbersOf later := rfl
    rw [hsplit] at enough words ⊢
    rw [List.length_append, List.length_range', Nat.add_mul] at enough
    obtain ⟨hhere, hlater⟩ := List.forall_mem_append.mp words
    have hrest : (Encoder.numbersOf later).length * w.total ≤
        (data.drop (count * w.total)).length := by
      rw [List.length_drop]
      omega
    rw [decodeRanges, decodeRange_eq (by omega) hhere, recordsFor_append, List.length_range',
      List.find?_append, List.filterMap_append]
    cases (recordsFor w (List.range' start count) data).find? (refuses w) with
    | some r => rfl
    | none =>
      dsimp only
      rw [ih hrest hlater, List.reverse_append, List.reverse_reverse, List.append_assoc,
        Option.none_or]

/-- Data with enough records gives their entries in order, or the complaint about the first record
    that is refused. -/
theorem decodeEntries_eq {l : Layout} {data : Bytes} (positive : 0 < l.widths.total)
    (bounded : ∀ range ∈ l.index, range.1 + range.2 ≤ 2 ^ 64)
    (enough : l.recordCount * l.widths.total ≤ data.length) (addressable : data.length < 2 ^ 64) :
    l.decodeEntries data =
      match (l.records data).find? (refuses l.widths) with
      | some r => .error (refusal l.widths r)
      | none => .ok ((l.records data).filterMap (listedBy l.widths)) := by
  have hcount : l.recordCount ≤ l.recordCount * l.widths.total :=
    Nat.le_mul_of_pos_right _ positive
  have hwords : l.recordCount ≤ Decimal.maxWord64 ∧
      l.recordCount * l.widths.total ≤ Decimal.maxWord64 := by
    unfold Decimal.maxWord64
    omega
  have hexpected : l.expectedLength = .ok (l.recordCount * l.widths.total) := by
    unfold expectedLength
    exact if_pos (by simpa only [Bool.and_eq_true, decide_eq_true_eq] using hwords)
  unfold decodeEntries
  rw [if_neg (Nat.ne_of_gt positive), hexpected]
  dsimp only
  rw [if_neg (Nat.not_lt.mpr enough)]
  rw [Encoder.recordCount_eq] at enough
  exact decodeRanges_eq enough (fun n hn => le_maxWord64_of_mem_numbersOf bounded hn) []

/-! ## Overwritten records -/

/-- Whether a record is another one with new bytes behind an unknown type: the types are the same,
    and so is the rest if the type is known. -/
structure Overwritten (w : FieldWidths) (r r' : Nat × Bytes) : Prop where
  number : r'.1 = r.1
  kind : r'.2.take w.kind = r.2.take w.kind
  known : kindField w r.2 ≤ 2 → r'.2 = r.2

namespace Overwritten

variable {r r' : Nat × Bytes}

theorem kindField_eq (h : Overwritten w r r') : kindField w r'.2 = kindField w r.2 := by
  unfold kindField
  rw [h.kind]

theorem eq_of_known (h : Overwritten w r r') (hknown : kindField w r.2 ≤ 2) : r' = r :=
  Prod.ext h.number (h.known hknown)

/-- The entry is the same one, or there is none in both cases. -/
theorem listedBy_eq (h : Overwritten w r r') : listedBy w r' = listedBy w r := by
  by_cases hknown : kindField w r.2 ≤ 2
  · rw [h.eq_of_known hknown]
  · have hunknown : 2 < kindField w r.2 := Nat.lt_of_not_le hknown
    rw [listedBy_of_unknown hunknown, listedBy_of_unknown (h.kindField_eq ▸ hunknown)]

theorem filterMap_listedBy {rs rs' : List (Nat × Bytes)} (h : List.Forall₂ (Overwritten w) rs rs') :
    rs'.filterMap (listedBy w) = rs.filterMap (listedBy w) := by
  induction h with
  | nil => rfl
  | cons hfirst _ ih => rw [List.filterMap_cons, List.filterMap_cons, hfirst.listedBy_eq, ih]

/-- Where no record of a known type was refused, overwriting makes none of them be. -/
theorem unknown_of_refuses {rs rs' : List (Nat × Bytes)}
    (h : List.Forall₂ (Overwritten w) rs rs')
    (known : ∀ r ∈ rs, kindField w r.2 ≤ 2 → thirdField w r.2 ≤ Decimal.maxWord32) :
    ∀ r' ∈ rs', refuses w r' = true → 2 < kindField w r'.2 := by
  induction h with
  | nil => exact nofun
  | @cons r r' _ _ hfirst _ ih =>
    obtain ⟨hknown, hrest⟩ := List.forall_mem_cons.mp known
    refine List.forall_mem_cons.mpr ⟨fun hrefused => ?_, ih hrest⟩
    refine Nat.lt_of_not_le fun hle => ?_
    rw [hfirst.kindField_eq] at hle
    rw [hfirst.eq_of_known hle, refuses_iff] at hrefused
    exact absurd (hknown hle) (Nat.not_le.mpr hrefused)

end Overwritten

/-- New bytes in the second and third fields of records of unknown types do not show among the
    entries. They can only make the data unreadable, and they do so if they write a third field
    that is no word of 32 bits. -/
theorem decodeEntries_overwritten {l : Layout} {data data' : Bytes} (typed : 0 < l.widths.kind)
    (bounded : ∀ range ∈ l.index, range.1 + range.2 ≤ 2 ^ 64)
    (enough : l.recordCount * l.widths.total ≤ data.length) (addressable : data.length < 2 ^ 64)
    (known : ∀ r ∈ l.records data, kindField l.widths r.2 ≤ 2 →
      thirdField l.widths r.2 ≤ Decimal.maxWord32)
    (length : data'.length = data.length)
    (overwritten : List.Forall₂ (Overwritten l.widths) (l.records data) (l.records data')) :
    (∀ entries, l.decodeEntries data' = .ok entries ↔
      (∀ r ∈ l.records data', thirdField l.widths r.2 ≤ Decimal.maxWord32) ∧
        entries = (l.records data).filterMap (listedBy l.widths)) ∧
    ∀ e, l.decodeEntries data' = .error e ↔
      ∃ r, (l.records data').find? (refuses l.widths) = some r ∧ 2 < kindField l.widths r.2 ∧
        e = refusal l.widths r := by
  have positive : 0 < l.widths.total := by
    unfold FieldWidths.total
    omega
  rw [← length] at enough addressable
  rw [decodeEntries_eq positive bounded enough addressable,
    Overwritten.filterMap_listedBy overwritten]
  have hunknown := Overwritten.unknown_of_refuses overwritten known
  cases hfind : (l.records data').find? (refuses l.widths) with
  | none =>
    have hfits : ∀ r ∈ l.records data', thirdField l.widths r.2 ≤ Decimal.maxWord32 := by
      intro r hr
      have hnot := List.find?_eq_none.mp hfind r hr
      rwa [refuses_iff, Nat.not_lt] at hnot
    refine ⟨fun entries => ?_, fun e => ?_⟩
    · rw [Except.ok.injEq, eq_comm]
      exact ⟨fun heq => ⟨hfits, heq⟩, fun h => h.2⟩
    · simp
  | some r =>
    have hmem := List.mem_of_find?_eq_some hfind
    have hrefused := List.find?_some hfind
    refine ⟨fun entries => ?_, fun e => ?_⟩
    · constructor
      · exact nofun
      · exact fun h => absurd (h.1 r hmem) (Nat.not_le.mpr (refuses_iff.mp hrefused))
    · rw [Except.error.injEq, eq_comm]
      constructor
      · exact fun heq => ⟨r, rfl, hunknown r hmem hrefused, heq⟩
      · rintro ⟨r', hr', _, heq⟩
        rwa [Option.some.inj hr']

/-- A layout with a third field that is wider than its numbers can be. -/
def wideThird : Layout where
  widths := ⟨1, 1, 5⟩
  index := [(0, 2)]
  size := 2

/-- A record of the type 3 with a second and a third field, and one for an object at 30. -/
def futureRecords (second : UInt8) (third : Nat) : Bytes :=
  [0x03, second] ++ Bytes.bigEndian third 5 ++ [0x01, 0x1E, 0x00, 0x00, 0x00, 0x00, 0x00]

theorem futureRecords_overwritten (second : UInt8) (third : Nat) :
    List.Forall₂ (Overwritten wideThird.widths) (wideThird.records (futureRecords 0 0))
      (wideThird.records (futureRecords second third)) :=
  .cons ⟨rfl, rfl, fun hle => absurd hle (by decide)⟩ (.cons ⟨rfl, rfl, fun _ => rfl⟩ .nil)

theorem futureRecords_ignored :
    wideThird.decodeEntries (futureRecords 0xFF 0xFFFFFFFF) = .ok [(⟨1, 0⟩, .direct 30)] := by
  have outcome := (decodeEntries_overwritten (l := wideThird) (by decide) (by decide) (by decide)
    (by decide) (by decide) (by decide) (futureRecords_overwritten 0xFF 0xFFFFFFFF)).1
  exact (outcome _).mpr ⟨by decide, by decide⟩

/-- The records of known types are well formed, and nothing but the third field of the other one
    differs. Yet the data is read in one case and refused in the other. -/
theorem futureRecords_refused :
    (∀ r ∈ wideThird.records (futureRecords 0 0), kindField wideThird.widths r.2 ≤ 2 →
      thirdField wideThird.widths r.2 ≤ Decimal.maxWord32) ∧
    List.Forall₂ (Overwritten wideThird.widths) (wideThird.records (futureRecords 0 0))
      (wideThird.records (futureRecords 0 0x100000000)) ∧
    wideThird.decodeEntries (futureRecords 0 0) = .ok [(⟨1, 0⟩, .direct 30)] ∧
    wideThird.decodeEntries (futureRecords 0 0x100000000) =
      .error (.badStream (.thirdField 0x100000000 0)) :=
  ⟨by decide, futureRecords_overwritten 0 0x100000000, rfl, rfl⟩

end CrossReference.Layout
