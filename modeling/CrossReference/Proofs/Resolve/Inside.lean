import CrossReference.Proofs.Resolve.Outcome
import CrossReference.Proofs.Sweep.Settled

set_option autoImplicit false

/-! # Entries that point into a number

The sweep reads a header from the offset of an entry on and does not look at what stands in front of
it. So it takes the rear part of a header for the header of another object: in `11 0 obj` an entry
for the object 1 at the second digit passes. `entry_inside_number_iff` says that this is the only
way: such an entry comes from a section, for an offset that the sweep chooses itself is that of a
marker, and no marker begins behind a digit. -/

namespace CrossReference

/-- An offset inside a number: a digit stands there, and another one in front of it. -/
def InsideNumber (file : Bytes) (offset : Nat) : Prop :=
  ∃ before a b rest, file = before ++ a :: b :: rest ∧ offset = before.length + 1 ∧
    Byte.isDigit a = true ∧ Byte.isDigit b = true

/-- In front of a marker stands a blank, the end of a line, or nothing. -/
theorem ScanIndex.Marker.not_insideNumber {file : Bytes} {k : Key} {offset : Nat}
    (h : Marker file k offset) : ¬InsideNumber file offset := by
  obtain ⟨before, blanks, text, hfile, hbreak, hblanks, hoffset, _⟩ := h
  rintro ⟨front, a, b, rest, hinside, hoffset', hdigit, _⟩
  have hfront : before ++ blanks = front ++ [a] := by
    have hleft : file.take offset = before ++ blanks := by
      rw [hfile, hoffset, ← List.append_assoc, ← List.length_append, List.take_left]
    have hright : file.take offset = front ++ [a] := by
      have hsplit : front ++ a :: b :: rest = (front ++ [a]) ++ b :: rest := by simp
      have hlength : front.length + 1 = (front ++ [a]).length := by simp
      rw [hinside, hoffset', hsplit, hlength, List.take_left]
    exact hleft.symm.trans hright
  have hnot : Byte.isDigit a = false := by
    rcases List.eq_nil_or_concat blanks with rfl | ⟨init, last, rfl⟩
    · -- without blanks the line begins behind the byte
      rw [List.append_nil] at hfront
      subst hfront
      rcases hbreak with h | h | ⟨h, _⟩
      · exact absurd h (by simp)
      · obtain rfl : a = 0x0A := by simpa using h
        decide
      · obtain rfl : a = 0x0D := by simpa using h
        decide
    · rw [List.concat_eq_append, ← List.append_assoc] at hfront
      obtain rfl : last = a := by simpa using congrArg List.getLast? hfront
      have hblank := hblanks last (by simp)
      cases hd : Byte.isDigit last with
      | false => rfl
      | true =>
        rw [isBlank_of_isDigit hd] at hblank
        cases hblank
  rw [hnot] at hdigit
  cases hdigit

namespace Resolve

variable {options : Options} {file : Bytes} {r : Resolution}

/-- With verified offsets and without a rebuild, the result is what the sweep left. -/
theorem table_eq_run (verified : options.verifyOffsets = true)
    (resolved : resolve options file = .ok r) (unrebuilt : r.recovered = false) :
    r.table = (Sweep.run options.repairOffsets file (Chain.walk options file).table).table := by
  rcases resolve_eq_ok resolved with ⟨hserves, rfl⟩ | ⟨_, _, rebuilt, _, rfl⟩
  · exact congrArg Sweep.table (sweep_of_verify verified hserves)
  · cases unrebuilt

/-- With verified offsets and without a rebuild, an entry with an offset inside a number is left
    exactly if it was in the table of the chain and a header with its key can be read from the
    offset on. -/
theorem entry_inside_number_iff (verified : options.verifyOffsets = true)
    (resolved : resolve options file = .ok r) (unrebuilt : r.recovered = false) {k : Key}
    {offset : Nat} (inside : InsideNumber file offset) :
    r.table.get? k = some (.direct offset) ↔
      (Chain.walk options file).table.get? k = some (.direct offset) ∧
        ∃ c, Reader.header ⟨offset, file.drop offset⟩ = .ok k c := by
  rw [table_eq_run verified resolved unrebuilt, Sweep.get?_run_eq_direct]
  constructor
  · rintro ⟨old, hold, hsettled⟩
    rcases Sweep.settled?_eq_some.mp hsettled with ⟨hlocated, rfl⟩ | ⟨_, _, hlast⟩
    · exact ⟨hold, hlocated.2⟩
    · exact absurd inside hlast.marker.not_insideNumber
  · rintro ⟨hget, hread⟩
    have hlocated : Located file k offset :=
      Sweep.headerAt?_eq_some_iff_located.mp (Sweep.headerAt?_eq_some.mpr hread)
    exact ⟨offset, hget, Sweep.settled?_eq_some.mpr (Or.inl ⟨hlocated, rfl⟩)⟩

/-- A document with one object, whose table has the right entry for it and one for another object,
    at the second digit of its header. -/
def suffixDocument : Bytes :=
  ["11 0 obj\nnull\nendobj\nxref\n", "1 1\n0000000001 00000 n \n", "11 1\n0000000000 00000 n \n",
    "trailer<</Size 12>>\nstartxref\n21\n"].flatMap ascii

theorem suffixDocument_inside : InsideNumber suffixDocument 1 :=
  ⟨[], 0x31, 0x31, suffixDocument.drop 2, by decide, rfl, by decide, by decide⟩

theorem resolve_suffixDocument :
    resolve .strict suffixDocument = .ok (ofChain .strict suffixDocument) := by
  have serves : chainServes .strict suffixDocument = true := by
    decide +kernel
  rw [resolve_eq, if_pos serves]

theorem suffixDocument_entry_left :
    InsideNumber suffixDocument 1 ∧
      ∃ r, resolve .strict suffixDocument = .ok r ∧ r.recovered = false ∧
        r.table.get? ⟨1, 0⟩ = some (.direct 1) := by
  have listed : (Chain.walk .strict suffixDocument).table.get? ⟨1, 0⟩ = some (.direct 1) := by
    decide +kernel
  have read : ∃ c, Reader.header ⟨1, suffixDocument.drop 1⟩ = .ok ⟨1, 0⟩ c := by
    refine Sweep.headerAt?_eq_some.mp ?_
    decide +kernel
  exact ⟨suffixDocument_inside, _, resolve_suffixDocument, rfl,
    (entry_inside_number_iff rfl resolve_suffixDocument rfl suffixDocument_inside).mpr
      ⟨listed, read⟩⟩

/-- The result has entries for two objects although there is only one. -/
theorem suffixDocument_left_inside :
    ∃ r, resolve .strict suffixDocument = .ok r ∧ r.recovered = false ∧ r.excluded = [] ∧
      r.table.toList = [(⟨1, 0⟩, .direct 1), (⟨11, 0⟩, .direct 0)] ∧
      InsideNumber suffixDocument 1 := by
  have left : (ofChain .strict suffixDocument).excluded = [] ∧
      (ofChain .strict suffixDocument).table.toList =
        [(⟨1, 0⟩, .direct 1), (⟨11, 0⟩, .direct 0)] := by
    decide +kernel
  exact ⟨_, resolve_suffixDocument, rfl, left.1, left.2, suffixDocument_inside⟩

end Resolve

end CrossReference
