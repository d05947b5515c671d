import CrossReference.Proofs.Recovery.Rebuilt
import CrossReference.Proofs.Resolve.Outcome
import CrossReference.Proofs.Sweep.Settled

set_option autoImplicit false

/-! # Entries that point at their own objects

The offset of an entry for an object in the document itself can come from three places: from a
section, from a scan on behalf of a sweep, and from the scan of a rebuild. `Located` is what all
three have to make sure of. The sweep compares each offset of a section, and where it replaces one,
and in a rebuild, the offset is that of a marker, which the reader of headers reads as the scan does
(`Marker.located`). -/

namespace CrossReference

/-! ## The sweep -/

namespace Sweep

/-- Behind a sweep, entries are located. -/
theorem located_of_get?_run {repair : Bool} {file : Bytes} {t : Table} {k : Key} {offset : Nat}
    (h : (run repair file t).table.get? k = some (.direct offset))
    (small : k.number ≤ Decimal.maxSigned64) : Located file k offset := by
  obtain ⟨old, _, hsettled⟩ := get?_run_eq_direct.mp h
  rcases settled?_eq_some.mp hsettled with ⟨hlocated, rfl⟩ | ⟨_, _, hlast⟩
  · exact hlocated
  · exact hlast.marker.located small

end Sweep

/-! ## All results -/

namespace Resolve

/-- If offsets were verified or the table was rebuilt, every entry for an object in the document
    itself has an offset at which a header with the entry's key is read. Numbers beyond those of a
    signed word are left out: they can be scanned, and no header can be read with them. -/
theorem direct_entry_located {options : Options} {file : Bytes} {r : Resolution}
    (resolved : resolve options file = .ok r)
    (checked : options.verifyOffsets = true ∨ r.recovered = true) {k : Key} {offset : Nat}
    (entry : r.table.get? k = some (.direct offset))
    (small : k.number ≤ Decimal.maxSigned64) :
    offset < file.length ∧ ∃ c, Reader.header ⟨offset, file.drop offset⟩ = .ok k c := by
  rcases resolve_eq_ok resolved with ⟨hserves, rfl⟩ | ⟨_, _, rebuilt, hrebuilt, rfl⟩
  · have hverify : options.verifyOffsets = true := by
      rcases checked with h | h
      · exact h
      · cases h
    -- a chain that serves has entries, so the sweep took place
    have hne : (Chain.walk options file).table.isEmpty = false := by
      unfold chainServes at hserves
      rw [Bool.and_eq_true, Bool.not_eq_true'] at hserves
      exact hserves.1
    have hsweep : sweep options file =
        .run options.repairOffsets file (Chain.walk options file).table := by
      unfold sweep swept
      rw [hne, hverify]
      rfl
    have htable : (ofChain options file).table =
        (Sweep.run options.repairOffsets file (Chain.walk options file).table).table := by
      rw [ofChain, hsweep]
    rw [htable] at entry
    exact Sweep.located_of_get?_run entry small
  · have hmem := Recovery.mem_objects_of_run hrebuilt entry
    exact (ScanIndex.mem_objects_scan.mp hmem).located small

/-- A document whose table has a wrong offset for its first object and the right one for the
    other. -/
def misplacedDocument : Bytes :=
  ["1 0 obj\n2\n3 0 obj\n4\n", "xref\n1 1\n0000000005 00000 n \n",
    "3 1\n0000000010 00000 n \n", "trailer<</Size 4>>\nstartxref\n20"].flatMap ascii

theorem misplacedDocument_located :
    ∃ r, resolve .tolerant misplacedDocument = .ok r ∧
      r.table.toList = [(⟨1, 0⟩, .direct 0), (⟨3, 0⟩, .direct 10)] ∧
      ∀ k offset, (k, offset) ∈ r.table.directOffsets →
        ∃ c, Reader.header ⟨offset, misplacedDocument.drop offset⟩ = .ok k c := by
  have run : chainServes .tolerant misplacedDocument = true ∧
      (ofChain .tolerant misplacedDocument).table.toList =
        [(⟨1, 0⟩, .direct 0), (⟨3, 0⟩, .direct 10)] := by
    decide +kernel
  have resolved : resolve .tolerant misplacedDocument =
      .ok (ofChain .tolerant misplacedDocument) := by
    rw [resolve_eq, if_pos run.1]
  refine ⟨_, resolved, run.2, ?_⟩
  intro k offset hmem
  have hget := Table.mem_directOffsets.mp hmem
  have small : k.number ≤ Decimal.maxSigned64 := by
    have hlisted := Table.mem_toList.mpr hget
    rw [run.2] at hlisted
    rcases List.mem_cons.mp hlisted with h | h
    · rw [(Prod.mk.inj h).1]
      decide
    · rw [(Prod.mk.inj (List.mem_singleton.mp h)).1]
      decide
  exact (direct_entry_located resolved (Or.inl rfl) hget small).2

end Resolve

end CrossReference
