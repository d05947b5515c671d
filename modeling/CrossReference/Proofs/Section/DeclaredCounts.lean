import CrossReference.ObjectStream
import CrossReference.Proofs.Loop
import CrossReference.Proofs.Section.Extension
import CrossReference.Proofs.Section.Records
import CrossReference.Proofs.Token.Spelled

set_option autoImplicit false

/-! # Declared counts

Three loops take their bound from the document: the header of a subsection says how many records
follow, the dictionary of an object stream how many members it has, and the index of a layout how
many records there are. None of them is driven further than the bytes go. A record line and a member
take at least a byte each, so the rounds run out of bytes before they run out of count; the records
of a layout are counted against the data before the first of them is read.

Each reader is shown to be a loop in rounds first, and its rounds are then counted. -/

namespace CrossReference

/-! ## Records of a table -/

namespace Section

/-- A round of a subsection, behind `s.1` others: it is completed when it has read a record line. -/
def recordRound (pedantic : Bool) (start count : Nat) (s : Nat × Draft) :
    Outcome (Nat × Draft) (EStateM.Result Error Draft Unit) :=
  let c := s.2.cursor.skipWhite
  let d := { s.2 with cursor := c }
  if c.atDigit then
    match readRecord pedantic (start + s.1) c d with
    | .ok () d' => .again (s.1 + 1, d')
    | .error e d' => .ended (.error e d')
  else .ended (complain c.position s!"Subsection {start} {count} ends after {s.1} entries" d)

theorem readRecords_eq_run (pedantic : Bool) (start count done left : Nat) (d : Draft) :
    readRecords pedantic start count done left d =
      Loop.run (recordRound pedantic start count) (fun s => .ok () s.2) left (done, d) := by
  induction left generalizing done d with
  | zero => rfl
  | succ left ih =>
    rw [readRecords, bind_of_ok (skipToText_eq d), Loop.run, recordRound]
    dsimp only
    split
    · cases hread : readRecord pedantic (start + done) d.cursor.skipWhite
          { d with cursor := d.cursor.skipWhite } with
      | ok _ d' =>
        rw [bind_of_ok hread]
        exact ih (done + 1) d'
      | error e d' => rw [bind_of_error hread]
    · rfl

/-- A record that is read takes its line. -/
theorem length_lt_of_readRecord {pedantic : Bool} {number : Nat} {c : Cursor} {d d' : Draft}
    (hne : d.cursor.rest ≠ []) (h : readRecord pedantic number c d = .ok () d') :
    d'.cursor.rest.length < d.cursor.rest.length := by
  rw [readRecord_eq] at h
  obtain ⟨_, d₁, hline, h⟩ := bind_eq_ok.mp h
  rw [move_eq] at hline
  cases hline
  have hkept : d'.cursor.rest.length ≤ d.cursor.skipLine.rest.length := by
    split at h
    · cases h
    · exact advances_keepRecord pedantic number c _ _ _ h
  exact Nat.lt_of_le_of_lt hkept (length_skipLine_lt hne)

theorem recordRound_consumes (pedantic : Bool) (start count : Nat) :
    Loop.Consumes (recordRound pedantic start count) fun s => s.2.cursor.rest.length := by
  intro s s' h
  unfold recordRound at h
  dsimp only at h
  split at h
  · rename_i hdigit
    have hne : s.2.cursor.skipWhite.rest ≠ [] := by
      intro hnil
      simp [Cursor.atDigit, Cursor.peek?, hnil] at hdigit
    split at h
    · rename_i d' hread
      obtain rfl := Outcome.again.inj h
      show d'.cursor.rest.length < s.2.cursor.rest.length
      exact Nat.lt_of_lt_of_le (length_lt_of_readRecord hne hread)
        (length_advance_le s.2.cursor _)
    · cases h
  · cases h

end Section

/-! ## Members of an object stream -/

namespace Reader

theorem length_lt_of_integer {c c' : Cursor} {value : Int} (h : integer c = .ok value c') :
    c'.rest.length < c.rest.length := by
  obtain ⟨f, rest, hrest, _, _, _, rfl⟩ := integer_eq_ok h
  have hdigits := List.length_pos_iff.mpr f.ne_nil
  simp only [hrest, Token.IntegerForm.text, List.length_append]
  omega

end Reader

namespace ObjectStream

open Reader

/-- A round of a header, behind the members in `s.1`: it is completed when it has read a member. -/
def memberRound (pedantic : Bool) (s : List (Nat × Nat) × Cursor) :
    Outcome (List (Nat × Nat) × Cursor) (Except Error (List (Nat × Nat))) :=
  match member s.2 with
  | .ok m c => .again (m :: s.1, c)
  | .error e _ => .ended (if pedantic then .error e else .ok s.1.reverse)

theorem membersFrom_eq_run (pedantic : Bool) (acc : List (Nat × Nat)) (c : Cursor) (count : Nat) :
    membersFrom pedantic acc c count =
      Loop.run (memberRound pedantic) (fun s => .ok s.1.reverse) count (acc, c) := by
  induction count generalizing acc c with
  | zero => rfl
  | succ count ih =>
    rw [membersFrom, Loop.run, memberRound]
    cases member c with
    | ok m c' => exact ih (m :: acc) c'
    | error e c' => rfl

theorem length_lt_of_member {c c' : Cursor} {m : Nat × Nat} (h : member c = .ok m c') :
    c'.rest.length < c.rest.length := by
  obtain ⟨number, c₁, hnumber, h⟩ := bind_eq_ok.mp h
  obtain ⟨offset, c₂, hoffset, h⟩ := bind_eq_ok.mp h
  have hfirst := length_lt_of_integer hnumber
  have hsecond := length_lt_of_integer hoffset
  split at h
  · cases h
    omega
  · cases h

theorem memberRound_again {pedantic : Bool} {s s' : List (Nat × Nat) × Cursor}
    (h : memberRound pedantic s = .again s') :
    s'.1.length = s.1.length + 1 ∧ s'.2.rest.length < s.2.rest.length := by
  unfold memberRound at h
  split at h
  · rename_i m c hmember
    obtain rfl := Outcome.again.inj h
    exact ⟨rfl, length_lt_of_member hmember⟩
  · cases h

theorem memberRound_consumes (pedantic : Bool) :
    Loop.Consumes (memberRound pedantic) fun s => s.2.rest.length :=
  fun _ _ h => (memberRound_again h).2

/-- There are at most as many members as bytes. The members that were read and the bytes that are
    left never become more together. -/
theorem length_membersFrom_le {pedantic : Bool} {data : Bytes} {count : Nat}
    {members : List (Nat × Nat)} (h : membersFrom pedantic [] (.start data) count = .ok members) :
    members.length ≤ data.length := by
  let P : List (Nat × Nat) × Cursor → Prop := fun s => s.1.length + s.2.rest.length ≤ data.length
  let Q : Except Error (List (Nat × Nat)) → Prop :=
    fun found => ∀ members, found = .ok members → members.length ≤ data.length
  have hreverse : ∀ s, P s → Q (.ok s.1.reverse) := by
    rintro s hs members ⟨⟩
    have hs : s.1.length + s.2.rest.length ≤ data.length := hs
    rw [List.length_reverse]
    omega
  have hagain : ∀ s s', P s → memberRound pedantic s = .again s' → P s' := by
    intro s s' hs hround
    have hs : s.1.length + s.2.rest.length ≤ data.length := hs
    obtain ⟨hmember, hbytes⟩ := memberRound_again hround
    show s'.1.length + s'.2.rest.length ≤ data.length
    omega
  have hended : ∀ s found, P s → memberRound pedantic s = .ended found → Q found := by
    intro s found hs hround
    unfold memberRound at hround
    split at hround
    · cases hround
    · obtain rfl := Outcome.ended.inj hround
      cases pedantic with
      | true => exact nofun
      | false => exact hreverse s hs
  have hstart : P ([], .start data) := by
    show 0 + data.length ≤ data.length
    omega
  rw [membersFrom_eq_run] at h
  exact Loop.run_induct hagain hended hreverse count hstart members h

end ObjectStream

/-! ## Records of a layout -/

namespace Layout

/-- The records of a layout while they are read: the entries so far, last one first, the data that
    is left, and the object numbers of the records in it. -/
structure Pending where
  acc : List (Key × Entry)
  data : Bytes
  numbers : List Nat

/-- A round for one record: it is completed when it has read the record. -/
def recordRound (w : FieldWidths) (s : Pending) :
    Outcome Pending (Except Error (List (Key × Entry))) :=
  match s.numbers with
  | [] => .ended (.ok s.acc.reverse)
  | number :: later =>
    let record := s.data.take w.total
    if record.length < w.total then .ended (.error (.badStream .outOfRecords))
    else
      match decodeRecord w number record with
      | .error e => .ended (.error e)
      | .ok entry => .again ⟨entry.toList ++ s.acc, s.data.drop w.total, later⟩

/-- The records of an index, read in rounds. -/
def decodeRun (w : FieldWidths) (rounds : Nat) (s : Pending) : Except Error (List (Key × Entry)) :=
  Loop.run (recordRound w) (fun s => .ok s.acc.reverse) rounds s

/-- A range takes as many rounds as it has records, unless it fails. -/
theorem decodeRun_range (w : FieldWidths) (acc : List (Key × Entry)) (data : Bytes)
    (start count rounds : Nat) (later : List Nat) :
    decodeRun w (count + rounds) ⟨acc, data, List.range' start count ++ later⟩ =
      match decodeRange w acc start data count with
      | .error e => .error e
      | .ok (acc', data') => decodeRun w rounds ⟨acc', data', later⟩ := by
  induction count generalizing acc data start with
  | zero =>
    rw [Nat.zero_add]
    rfl
  | succ count ih =>
    have hrounds : count + 1 + rounds = count + rounds + 1 := by omega
    rw [hrounds, List.range'_succ, List.cons_append, decodeRun, Loop.run, recordRound, decodeRange]
    by_cases hshort : (data.take w.total).length < w.total
    · simp only [if_pos hshort]
    · simp only [if_neg hshort]
      cases decodeRecord w start (data.take w.total) with
      | error e => rfl
      | ok entry => exact ih (entry.toList ++ acc) (data.drop w.total) (start + 1)

/-- Ranges take as many rounds as they have numbers, unless they fail. -/
theorem decodeRanges_eq_run (w : FieldWidths) (acc : List (Key × Entry)) (data : Bytes)
    (index : List (Nat × Nat)) :
    decodeRanges w acc data index =
      decodeRun w (Encoder.numbersOf index).length ⟨acc, data, Encoder.numbersOf index⟩ := by
  induction index generalizing acc data with
  | nil => rfl
  | cons range later ih =>
    obtain ⟨start, count⟩ := range
    have hsplit : Encoder.numbersOf ((start, count) :: later) =
        List.range' start count ++ Encoder.numbersOf later := rfl
    rw [hsplit, List.length_append, List.length_range', decodeRun_range, decodeRanges]
    cases decodeRange w acc start data count with
    | error e => rfl
    | ok found => exact ih found.1 found.2

/-- The records that are visited while the data of a layout is read. -/
def visits (l : Layout) (data : Bytes) : List Pending :=
  Loop.starts (recordRound l.widths) l.recordCount ⟨[], data, Encoder.numbersOf l.index⟩

/-- Behind the test of the length, the data is read in rounds, of which there are no more than bytes
    of data. -/
theorem decodeEntries_eq_run {l : Layout} {data : Bytes} {expected : Nat}
    (htotal : l.widths.total ≠ 0) (hexpected : l.expectedLength = .ok expected)
    (hlength : expected ≤ data.length) :
    l.decodeEntries data =
        decodeRun l.widths l.recordCount ⟨[], data, Encoder.numbersOf l.index⟩ ∧
      (l.visits data).length ≤ data.length := by
  constructor
  · unfold decodeEntries
    rw [if_neg htotal, hexpected]
    dsimp only
    rw [if_neg (Nat.not_lt.mpr hlength), decodeRanges_eq_run, ← Encoder.recordCount_eq]
  · have hbytes : l.recordCount * l.widths.total = expected := by
      unfold expectedLength at hexpected
      dsimp only at hexpected
      split at hexpected
      · exact Except.ok.inj hexpected
      · cases hexpected
    calc (l.visits data).length
      _ ≤ l.recordCount := Loop.length_starts_le_rounds _ _
      _ ≤ l.recordCount * l.widths.total := Nat.le_mul_of_pos_right _ (Nat.pos_of_ne_zero htotal)
      _ ≤ data.length := hbytes ▸ hlength

end Layout

/-! ## All three -/

/-- No declared count drives a reader past the bytes that there are. Whatever count the header of a
    subsection gives, at most one round more starts than there are bytes left, and each completed
    round takes a byte. Whatever count the dictionary of an object stream gives, at most one round
    more starts than its data has bytes, and it has no more members than bytes. In data that is long
    enough for the index of a layout, no more records are visited than there are bytes. -/
theorem declared_counts_bounded :
    (∀ (pedantic : Bool) (start count : Nat) (d : Section.Draft),
      Section.readRecords pedantic start count 0 count d =
        Loop.run (Section.recordRound pedantic start count) (fun s => .ok () s.2) count (0, d) ∧
      (Loop.starts (Section.recordRound pedantic start count) count (0, d)).length ≤
        d.cursor.rest.length + 1 ∧
      Loop.Consumes (Section.recordRound pedantic start count) fun s => s.2.cursor.rest.length) ∧
    (∀ (pedantic : Bool) (data : Bytes) (count : Nat),
      ObjectStream.membersFrom pedantic [] (.start data) count =
        Loop.run (ObjectStream.memberRound pedantic) (fun s => .ok s.1.reverse) count
          ([], .start data) ∧
      (Loop.starts (ObjectStream.memberRound pedantic) count ([], .start data)).length ≤
        data.length + 1 ∧
      ∀ members, ObjectStream.membersFrom pedantic [] (.start data) count = .ok members →
        members.length ≤ data.length) ∧
    ∀ (l : Layout) (data : Bytes) (expected : Nat), l.widths.total ≠ 0 →
      l.expectedLength = .ok expected → expected ≤ data.length →
      l.decodeEntries data =
        Layout.decodeRun l.widths l.recordCount ⟨[], data, Encoder.numbersOf l.index⟩ ∧
      (l.visits data).length ≤ data.length := by
  refine ⟨fun pedantic start count d => ?_, fun pedantic data count => ?_, fun l data n => ?_⟩
  · have hconsumes := Section.recordRound_consumes pedantic start count
    exact ⟨Section.readRecords_eq_run pedantic start count 0 count d,
      Loop.length_starts_le hconsumes count (0, d), hconsumes⟩
  · exact ⟨ObjectStream.membersFrom_eq_run pedantic [] (.start data) count,
      Loop.length_starts_le (ObjectStream.memberRound_consumes pedantic) count ([], .start data),
      fun _ hmembers => ObjectStream.length_membersFrom_le hmembers⟩
  · exact Layout.decodeEntries_eq_run

/-- The greatest counts, and hardly any bytes: a subsection of one line, a header of one member, and
    a layout with a record of one byte. -/
theorem greatest_counts_bounded :
    (Loop.starts (Section.recordRound false 1 Decimal.maxWord64) Decimal.maxWord64
      (0, { cursor := .start (ascii "7\n") })).length ≤ 3 ∧
    ObjectStream.membersFrom false [] (.start (ascii "1 0")) Decimal.maxSigned64 = .ok [(1, 0)] ∧
    [(1, 0)].length ≤ (ascii "1 0").length ∧
    (Layout.visits ⟨⟨1, 0, 0⟩, [(5, 1)], 6⟩ [1]).length ≤ 1 := by
  obtain ⟨hrecords, hmembers, hvisits⟩ := declared_counts_bounded
  have hread : ObjectStream.membersFrom false [] (.start (ascii "1 0")) Decimal.maxSigned64 =
      .ok [(1, 0)] := by rfl
  exact ⟨(hrecords false 1 Decimal.maxWord64 { cursor := .start (ascii "7\n") }).2.1, hread,
    (hmembers false (ascii "1 0") Decimal.maxSigned64).2.2 [(1, 0)] hread,
    (hvisits ⟨⟨1, 0, 0⟩, [(5, 1)], 6⟩ [1] 1 (by decide) rfl (by decide)).2⟩

end CrossReference
