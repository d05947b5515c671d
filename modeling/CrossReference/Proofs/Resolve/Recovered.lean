import CrossReference.Proofs.Recovery.Rebuilt
import CrossReference.Proofs.Resolve.Outcome

set_option autoImplicit false

/-! # Recovered results

A recovered result has the table of a rebuild, whatever the options and whatever the chain of
sections gave before. `recovered_table` says what such a table contains. It also says of each entry
for a member that it leads to an object stream with this member, and `recovered_member` to which one
if there are several: to the first one in the document. Headers are treated the other way round, the
last one with a key counts. -/

namespace CrossReference

namespace Resolve

/-- The table of a recovered result has exactly the keys of the markers with offsets, each with that
    of its last marker, and beside them the members of object streams and nothing else. -/
theorem recovered_table {options : Options} {file : Bytes} {r : Resolution}
    (resolved : resolve options file = .ok r) (recovered : r.recovered = true) :
    Recovery.Rebuilt options file r.table := by
  obtain ⟨rebuilt, hrebuilt, rfl⟩ := exists_rebuilt resolved recovered
  exact Recovery.rebuilt_run hrebuilt

/-- A document without sections, in which two object streams list the number 3. -/
def overlapDocument : Bytes :=
  ["7 0 obj<</Type/ObjStm/N 1/First 4/Length 8>>stream\n3 0 nullendstream\nendobj\n",
    "8 0 obj<</Type/ObjStm/N 1/First 4/Length 8>>stream\n3 0 trueendstream\nendobj"].flatMap ascii

theorem overlapDocument_run :
    ∃ r, resolve .lenient overlapDocument = .ok r ∧ r.recovered = true ∧
      r.table.toList =
        [(⟨3, 0⟩, .compressed 7 0), (⟨7, 0⟩, .direct 0), (⟨8, 0⟩, .direct 76)] := by
  have run : (resolve .lenient overlapDocument).toOption.map
      (fun r => (r.recovered, r.table.toList)) =
        some (true,
          [(⟨3, 0⟩, .compressed 7 0), (⟨7, 0⟩, .direct 0), (⟨8, 0⟩, .direct 76)]) := by
    decide +kernel
  cases resolved : resolve .lenient overlapDocument with
  | error e =>
    rw [resolved] at run
    cases run
  | ok r =>
    rw [resolved] at run
    obtain ⟨recovered, table⟩ := Prod.mk.inj (Option.some.inj run)
    exact ⟨r, rfl, recovered, table⟩

theorem overlapDocument_table :
    ∃ r, resolve .lenient overlapDocument = .ok r ∧ r.recovered = true ∧
      Recovery.Rebuilt .lenient overlapDocument r.table := by
  obtain ⟨r, resolved, recovered, _⟩ := overlapDocument_run
  exact ⟨r, resolved, recovered, recovered_table resolved recovered⟩

/-- An entry for a member in a recovered result leads to the first object stream in the document
    that lists its number, and to the first index there. -/
theorem recovered_member {options : Options} {file : Bytes} {r : Resolution}
    (resolved : resolve options file = .ok r) (recovered : r.recovered = true) {k : Key}
    {stream i : Nat} (entry : r.table.get? k = some (.compressed stream i)) :
    k.generation = 0 ∧ ∃ key offset, key.number = stream ∧
      Recovery.FirstListing options file r.table k.number key offset i := by
  obtain ⟨rebuilt, hrebuilt, rfl⟩ := exists_rebuilt resolved recovered
  exact Recovery.firstListing_run hrebuilt entry

theorem overlapDocument_member :
    ∃ r, resolve .lenient overlapDocument = .ok r ∧ r.recovered = true ∧
      r.table.get? ⟨3, 0⟩ = some (.compressed 7 0) ∧
      ∃ key offset, key.number = 7 ∧
        Recovery.FirstListing .lenient overlapDocument r.table 3 key offset 0 := by
  obtain ⟨r, resolved, recovered, table⟩ := overlapDocument_run
  have entry : r.table.get? ⟨3, 0⟩ = some (.compressed 7 0) :=
    Table.mem_toList.mp (by simp [table])
  exact ⟨r, resolved, recovered, entry, (recovered_member resolved recovered entry).2⟩

/-- The entry for 3 leads to the object stream 7, and the object stream 8, which lists 3 too, stands
    further into the document. -/
theorem overlapDocument_not_last :
    ∃ r, resolve .lenient overlapDocument = .ok r ∧ r.recovered = true ∧
      r.table.get? ⟨3, 0⟩ = some (.compressed 7 0) ∧
      r.table.get? ⟨7, 0⟩ = some (.direct 0) ∧ r.table.get? ⟨8, 0⟩ = some (.direct 76) ∧
      ∃ s, Recovery.streamAt? Options.lenient.toTolerance overlapDocument 76 = some (⟨8, 0⟩, s) ∧
        s.numbers = [3] := by
  obtain ⟨r, resolved, recovered, table⟩ := overlapDocument_run
  have later : (Recovery.streamAt? Options.lenient.toTolerance overlapDocument 76).map
      (fun found => (found.1, found.2.numbers)) = some (⟨8, 0⟩, [3]) := by
    decide +kernel
  obtain ⟨⟨key, s⟩, hs, hfound⟩ := Option.map_eq_some_iff.mp later
  obtain ⟨rfl, numbers⟩ := Prod.mk.inj hfound
  refine ⟨r, resolved, recovered, Table.mem_toList.mp ?_, Table.mem_toList.mp ?_,
    Table.mem_toList.mp ?_, s, hs, numbers⟩ <;> simp [table]

end Resolve

end CrossReference
