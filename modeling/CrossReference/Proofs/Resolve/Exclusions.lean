import CrossReference.Proofs.Resolve.Outcome
import CrossReference.Proofs.Sweep.Outcome

set_option autoImplicit false

/-! # Sweeps that put everything aside

The sweep only looks at entries with offsets, and the judgement on the chain behind it counts every
entry that is in use. So an entry for a member of an object stream keeps up a chain of which nothing
else is left, although the object stream itself was put aside. `served_iff_of_excluded` says what
decides, and on `orphanDocument` it is such an entry. -/

namespace CrossReference

/-! ## Entries that are in use -/

namespace Entry

theorem isInUse_iff {e : Entry} :
    e.isInUse = true ↔
      (∃ offset, e = direct offset) ∨ ∃ stream index, e = compressed stream index := by
  cases e <;> simp [isInUse]

end Entry

namespace Table

theorem hasInUse_iff {t : Table} :
    t.hasInUse = true ↔ ∃ k e, t.get? k = some e ∧ e.isInUse = true := by
  unfold hasInUse
  rw [List.any_eq_true]
  constructor
  · rintro ⟨⟨k, e⟩, hmem, huse⟩
    exact ⟨k, e, mem_toList.mp hmem, huse⟩
  · rintro ⟨k, e, hget, huse⟩
    exact ⟨(k, e), mem_toList.mpr hget, huse⟩

end Table

/-! ## The judgement on the chain -/

namespace Resolve

variable {options : Options} {file : Bytes}

/-- A sweep that put entries aside is one that took place. -/
theorem sweep_of_excluded (h : (sweep options file).excluded ≠ []) :
    sweep options file = .run options.repairOffsets file (Chain.walk options file).table := by
  unfold sweep swept at h ⊢
  split at h
  · exact absurd rfl h
  · rename_i hran
    rw [if_neg hran]

/-- If entries were put aside, the chain serves exactly if an entry in use is left. -/
theorem chainServes_iff_of_excluded (h : (sweep options file).excluded ≠ []) :
    chainServes options file = true ↔
      ∃ k e, (sweep options file).table.get? k = some e ∧ e.isInUse = true := by
  have hempty : (Chain.walk options file).table.isEmpty = false := by
    cases hchain : (Chain.walk options file).table.isEmpty with
    | false => rfl
    | true =>
      unfold sweep swept at h
      rw [hchain, Bool.true_or, if_pos rfl] at h
      exact absurd rfl h
  have hexcluded : (sweep options file).excluded.isEmpty = false := by
    rw [List.isEmpty_eq_false_iff]
    exact h
  unfold chainServes lostAll
  rw [hempty, hexcluded, ← Table.hasInUse_iff]
  simp

theorem unrecovered_iff_chainServes :
    (∃ r, resolve options file = .ok r ∧ r.recovered = false) ↔
      chainServes options file = true := by
  constructor
  · rintro ⟨r, hr, hnot⟩
    rcases resolve_eq_ok hr with ⟨hserves, _⟩ | ⟨_, _, rebuilt, _, rfl⟩
    · exact hserves
    · cases hnot
  · intro hserves
    refine ⟨ofChain options file, ?_, rfl⟩
    rw [resolve_eq, if_pos hserves]

/-- An entry with an offset is left exactly if one was not put aside. -/
theorem exists_direct_iff (h : (sweep options file).excluded ≠ []) :
    (∃ k offset, (sweep options file).table.get? k = some (.direct offset)) ↔
      ∃ k offset, (Chain.walk options file).table.get? k = some (.direct offset) ∧
        (k, .direct offset) ∉ (sweep options file).excluded := by
  rw [sweep_of_excluded h]
  constructor
  · rintro ⟨k, offset, hget⟩
    obtain ⟨old, hold, hsettled⟩ := Sweep.get?_run_eq_direct.mp hget
    refine ⟨k, old, hold, fun hmem => ?_⟩
    rw [(Sweep.mem_excluded_run.mp hmem).2] at hsettled
    cases hsettled
  · rintro ⟨k, old, hold, hnot⟩
    obtain ⟨offset, hsettled⟩ : ∃ offset, Sweep.settled? file
        (Sweep.known? options.repairOffsets file) (k, old) = some offset := by
      rw [← Option.ne_none_iff_exists']
      intro hnone
      exact hnot (Sweep.mem_excluded_run.mpr ⟨hold, hnone⟩)
    exact ⟨k, offset, Sweep.get?_run_eq_direct.mpr ⟨old, hold, hsettled⟩⟩

theorem get?_sweep_eq_compressed (h : (sweep options file).excluded ≠ []) {k : Key}
    {stream index : Nat} :
    (sweep options file).table.get? k = some (.compressed stream index) ↔
      (Chain.walk options file).table.get? k = some (.compressed stream index) := by
  rw [sweep_of_excluded h, Sweep.get?_run_eq_compressed]

/-- If the sweep put entries aside, the chain still serves exactly if it has an entry with an offset
    that was not put aside, or an entry for a member of any object stream. The result has an entry
    with an offset only in the first case. -/
theorem served_iff_of_excluded (excludes : (sweep options file).excluded ≠ []) :
    ((∃ r, resolve options file = .ok r ∧ r.recovered = false) ↔
      (∃ k offset, (Chain.walk options file).table.get? k = some (.direct offset) ∧
        (k, .direct offset) ∉ (sweep options file).excluded) ∨
      ∃ k stream index,
        (Chain.walk options file).table.get? k = some (.compressed stream index)) ∧
    ∀ r, resolve options file = .ok r → r.recovered = false →
      ((∃ k offset, r.table.get? k = some (.direct offset)) ↔
        ∃ k offset, (Chain.walk options file).table.get? k = some (.direct offset) ∧
          (k, .direct offset) ∉ (sweep options file).excluded) := by
  rw [← exists_direct_iff excludes]
  constructor
  · rw [unrecovered_iff_chainServes, chainServes_iff_of_excluded excludes]
    constructor
    · rintro ⟨k, e, hget, huse⟩
      rcases Entry.isInUse_iff.mp huse with ⟨offset, rfl⟩ | ⟨stream, index, rfl⟩
      · exact Or.inl ⟨k, offset, hget⟩
      · exact Or.inr ⟨k, stream, index, (get?_sweep_eq_compressed excludes).mp hget⟩
    · rintro (⟨k, offset, hget⟩ | ⟨k, stream, index, hget⟩)
      · exact ⟨k, _, hget, rfl⟩
      · exact ⟨k, _, (get?_sweep_eq_compressed excludes).mpr hget, rfl⟩
  · intro r hr hnot
    rcases resolve_eq_ok hr with ⟨_, rfl⟩ | ⟨_, _, rebuilt, _, rfl⟩
    · exact Iff.rfl
    · cases hnot

/-- A section in a stream with two entries: one for an object at an offset where another object
    stands, and one for a member of that object. -/
def orphanDocument : Bytes :=
  ascii "4 0 obj<</Type/XRef/Size 3/W[1 1 1]/Index[1 2]/Length 6>>stream\n" ++
    [1, 0, 0, 2, 1, 0] ++ ascii "endstream\nstartxref\n0"

theorem orphanDocument_served :
    (sweep .strict orphanDocument).excluded ≠ [] ∧
      ∃ r, resolve .strict orphanDocument = .ok r ∧ r.recovered = false := by
  have excludes : (sweep .strict orphanDocument).excluded ≠ [] := by
    decide +kernel
  have member : (Chain.walk .strict orphanDocument).table.get? ⟨2, 0⟩ = some (.compressed 1 0) := by
    decide +kernel
  exact ⟨excludes, (served_iff_of_excluded excludes).1.mpr (Or.inr ⟨⟨2, 0⟩, 1, 0, member⟩)⟩

/-- The result is no rebuild, and its only entry is for a member of an object that was put aside. -/
theorem orphanDocument_left_with_member :
    ∃ r, resolve .strict orphanDocument = .ok r ∧ r.recovered = false ∧
      r.excluded = [(⟨1, 0⟩, .direct 0)] ∧ r.table.toList = [(⟨2, 0⟩, .compressed 1 0)] := by
  have run : chainServes .strict orphanDocument = true ∧
      (ofChain .strict orphanDocument).excluded = [(⟨1, 0⟩, .direct 0)] ∧
      (ofChain .strict orphanDocument).table.toList = [(⟨2, 0⟩, .compressed 1 0)] := by
    decide +kernel
  refine ⟨ofChain .strict orphanDocument, ?_, rfl, run.2⟩
  rw [resolve_eq, if_pos run.1]

end Resolve

end CrossReference
