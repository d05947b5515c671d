import CrossReference.Proofs.Section.Written
import CrossReference.Proofs.Object.Written
import CrossReference.Proofs.Table.Union
import CrossReference.Proofs.Token.Spelled

set_option autoImplicit false

/-! # The table that a written section gives

A table that is written out is read without complaints, by pedantic readers and by others, and gives
each key the first record that lists it (`readTable_tableText`). Subsections may be empty, overlap
and repeat each other, records may end in any of three ways, and object numbers go up to the last
one of 64 bits. A number that needs more bits makes no header (`oversized_header_refused`). -/

namespace CrossReference

open Bytes (Stops)

/-- The text of a dictionary ends the word in front of it. -/
theorem Object.stops_of_readDict {tolerance : Tolerance} {position : Nat} {text : Bytes}
    {entries : Dict Object} {c : Cursor} (h : readDict tolerance ⟨position, text⟩ = .ok entries c) :
    Stops Byte.isRegular text := by
  obtain ⟨t, c₁, hread, h⟩ := bind_eq_ok.mp h
  cases t with
  | dictOpen =>
    rcases Reader.token_of_significant hread Token.noConfusion with ⟨comment, c₂, htoken⟩ | htoken
    · obtain ⟨n, hscan, _⟩ := Reader.exists_scan_of_token htoken
      exact Token.stops_of_scan hscan (Or.inr ⟨comment, rfl⟩)
    · obtain ⟨n, hscan, _⟩ := Reader.exists_scan_of_token htoken
      exact Token.stops_of_scan hscan (Or.inl rfl)
  | _ => cases h

namespace Section

/-- A table that is written out, with a dictionary behind the keyword of its trailer, is read with
    all its records and without complaints. The result is the offset of that keyword and the
    dictionary, and the table has for each key the first record that lists it. -/
theorem readTable_tableText (tolerance : Tolerance) (before behind : Bytes)
    (subsections : List Subsection) {entries : Dict Object} {c : Cursor}
    (hdict : Object.readDict tolerance
      ⟨before.length + (tableText subsections).length, behind⟩ = .ok entries c) :
    ∃ draft, readTable tolerance (before ++ (tableText subsections ++ behind)) before.length =
        .ok (before.length + trailerDistance subsections, entries) draft ∧
      (before ++ (tableText subsections ++ behind)).drop
        (before.length + trailerDistance subsections) = Reserved.trailer.spelling ++ behind ∧
      draft.notes = [] ∧
      ∀ k, draft.table.get? k =
        OrderedMap.lookup k (subsections.flatMap Subsection.records) := by
  have hsplit : tableText subsections ++ behind =
      (Reserved.xref.spelling ++ 0x0A :: subsectionsText subsections) ++
        (Reserved.trailer.spelling ++ behind) := by
    simp only [tableText, List.append_assoc, List.cons_append]
  have hlength : (Reserved.xref.spelling ++ 0x0A :: subsectionsText subsections).length =
      trailerDistance subsections := by
    simp only [trailerDistance, List.length_append, List.length_cons]
    omega
  refine ⟨_, readTable_written subsections (Object.stops_of_readDict hdict) hdict, ?_, rfl,
    fun k => Table.get?_ofList _ k⟩
  rw [hsplit, ← hlength, List.drop_length_add_append, List.drop_left]

/-- Records that end in all three ways, an empty subsection, one that lists a key again, and one for
    the last object number. -/
def sampleSubsections : List Subsection :=
  [⟨3, [⟨17, 2, true, .returnFeed, by decide, by decide⟩,
      ⟨0, 65535, false, .spaceFeed, by decide, by decide⟩], by decide, by decide, by decide⟩,
    ⟨9, [], by decide, by decide, by decide⟩,
    ⟨3, [⟨99, 2, true, .spaceReturn, by decide, by decide⟩], by decide, by decide, by decide⟩,
    ⟨18446744073709551615, [⟨5, 1, true, .spaceFeed, by decide, by decide⟩], by decide, by decide,
      by decide⟩]

def sampleTrailer : List NumberEntry :=
  [⟨ascii "XRefStm", 409, List.all_eq_true.mp (by decide)⟩]

theorem sampleSubsections_read :
    tableText sampleSubsections = ascii ("xref\n3 2\n0000000017 00002 n\r\n0000000000 65535 f \n" ++
      "9 0\n3 1\n0000000099 00002 n \r18446744073709551615 1\n0000000005 00001 n \ntrailer") ∧
    ∃ draft, readTable Options.strict.toTolerance
        (tableText sampleSubsections ++ dictText sampleTrailer) 0 =
        .ok (trailerDistance sampleSubsections, dictOf sampleTrailer) draft ∧
      draft.notes = [] ∧ draft.table.get? ⟨3, 2⟩ = some (.direct 17) ∧
      draft.table.get? ⟨4, 65535⟩ = some (.free 0) ∧
      draft.table.get? ⟨18446744073709551615, 1⟩ = some (.direct 5) ∧
      draft.table.get? ⟨9, 0⟩ = none := by
  have hdict : ∀ position, Object.readDict Options.strict.toTolerance
      ⟨position, dictText sampleTrailer⟩ =
        .ok (dictOf sampleTrailer) ⟨position + (dictText sampleTrailer).length, []⟩ := by
    intro position
    have hvalues : ∀ e ∈ sampleTrailer, e.value ≤ Decimal.maxSigned64 :=
      List.forall_mem_singleton.mpr (by decide)
    have h := Object.readDict_written Options.strict.toTolerance hvalues [] position
    rwa [List.append_nil] at h
  obtain ⟨draft, hread, _, hnotes, htable⟩ := readTable_tableText Options.strict.toTolerance []
    (dictText sampleTrailer) sampleSubsections (hdict _)
  rw [List.nil_append, List.length_nil, Nat.zero_add] at hread
  refine ⟨by decide +kernel, draft, hread, hnotes, ?_⟩
  simp only [htable]
  decide

/-- An object number of more than 64 bits makes no header, and neither does such a count. -/
theorem oversized_header_refused :
    18446744073709551616 + ([] : List Row).length ≤ 2 ^ 64 ∧
    (∃ trailer draft, readTable Options.strict.toTolerance
        (ascii "xref\n18446744073709551616 0\ntrailer<</Size 1>>") 0 = .ok trailer draft ∧
      draft.notes ≠ []) ∧
    headerLine? (ascii "0 18446744073709551616") = none := by
  have hnotes : (match readTable Options.strict.toTolerance
      (ascii "xref\n18446744073709551616 0\ntrailer<</Size 1>>") 0 with
    | .ok _ draft => draft.notes.length
    | .error _ _ => 0) = 1 := by decide +kernel
  refine ⟨by decide, ?_, by decide +kernel⟩
  split at hnotes
  · rename_i trailer draft hread
    refine ⟨trailer, draft, hread, ?_⟩
    rintro hnil
    rw [hnil] at hnotes
    cases hnotes
  · cases hnotes

end Section

end CrossReference
