import CrossReference.Proofs.Resolve.Outcome
import CrossReference.Proofs.Scan.Markers

set_option autoImplicit false

/-! # When a resolution fails

Faults in sections, trailers, streams, offsets and objects are absorbed where they are met. What is
left is the judgement on the chain and the scan of a rebuild, so a resolution fails only if the
chain is of no use and either no rebuild is wanted or the document has no marker. -/

namespace CrossReference

namespace Recovery

/-- A rebuild fails exactly if there are no objects to rebuild the table from. -/
theorem run_eq_error {options : Options} {file : Bytes} {index : ScanIndex} {t : Trailer}
    {e : Error} :
    run options file index t = .error e ↔ index.objects = [] ∧ e = .nothingFound file.length := by
  rw [run_eq, ScanIndex.isEmpty]
  constructor
  · intro h
    split at h
    · rename_i hempty
      exact ⟨List.isEmpty_iff.mp hempty, (Except.error.inj h).symm⟩
    · cases h
  · rintro ⟨hempty, rfl⟩
    rw [hempty, List.isEmpty_nil, if_pos rfl]

end Recovery

namespace Resolve

variable (options : Options) (file : Bytes)

theorem rebuild_eq_error {e : Error} :
    rebuild options file = .error e ↔
      (ScanIndex.scan file).objects = [] ∧ e = .nothingFound file.length :=
  Recovery.run_eq_error

/-- A resolution without result, in all detail. -/
theorem resolve_eq_error {e : Error} :
    resolve options file = .error e ↔
      chainServes options file = false ∧
        ((options.rebuild = false ∧ e = .unusableTable) ∨
          (options.rebuild = true ∧ e = .nothingFound file.length ∧
            (ScanIndex.scan file).objects = [])) := by
  rw [resolve_eq]
  cases hserves : chainServes options file with
  | true =>
    rw [if_pos rfl]
    constructor
    · intro h
      cases h
    · rintro ⟨h, _⟩
      cases h
  | false =>
    rw [if_neg Bool.false_ne_true]
    cases hrebuild : options.rebuild with
    | false =>
      rw [if_neg Bool.false_ne_true, Except.error.injEq]
      simp only [true_and, Bool.false_eq_true, false_and, or_false]
      exact eq_comm
    | true =>
      rw [if_pos rfl]
      have hmap : (rebuild options file).map (ofRebuild options file) = .error e ↔
          rebuild options file = .error e := by
        cases rebuild options file <;> simp [Except.map]
      rw [hmap, rebuild_eq_error]
      simp [and_comm]

theorem exists_marker_iff :
    (∃ k offset, ScanIndex.Marker file k offset) ↔ (ScanIndex.scan file).objects ≠ [] := by
  constructor
  · rintro ⟨k, offset, h⟩
    exact List.ne_nil_of_mem (ScanIndex.mem_objects_scan.mpr h)
  · intro h
    obtain ⟨⟨k, offset⟩, hmem⟩ := List.exists_mem_of_ne_nil _ h
    exact ⟨k, offset, ScanIndex.mem_objects_scan.mp hmem⟩

/-- A resolution fails exactly if the chain is of no use and, depending on whether a rebuild is
    wanted, in any case or if the document has no marker; and each case has one error. So if a
    rebuild is wanted, a document with a marker has a result, whatever else is wrong with it. -/
theorem fails_only_without_objects :
    (∀ e, resolve options file = .error e ↔
      chainServes options file = false ∧
        ((options.rebuild = false ∧ e = .unusableTable) ∨
          (options.rebuild = true ∧ e = .nothingFound file.length ∧
            ¬∃ k offset, ScanIndex.Marker file k offset))) ∧
    (options.rebuild = true → (∃ k offset, ScanIndex.Marker file k offset) →
      ∃ r, resolve options file = .ok r) := by
  have hiff : ∀ e, resolve options file = .error e ↔
      chainServes options file = false ∧
        ((options.rebuild = false ∧ e = .unusableTable) ∨
          (options.rebuild = true ∧ e = .nothingFound file.length ∧
            ¬∃ k offset, ScanIndex.Marker file k offset)) := by
    intro e
    rw [resolve_eq_error, exists_marker_iff, ne_eq, Decidable.not_not]
  refine ⟨hiff, ?_⟩
  intro hrebuild hmarker
  cases h : resolve options file with
  | ok r => exact ⟨r, rfl⟩
  | error e =>
    rcases ((hiff e).mp h).2 with ⟨hoff, _⟩ | ⟨_, _, hnone⟩
    · rw [hrebuild] at hoff
      cases hoff
    · exact absurd hmarker hnone

/-- Nothing but a marker, and that between bytes which mean nothing. -/
theorem marker_in_rubbish_resolves :
    ∃ r, resolve .lenient (ascii "xref \n7 3 obj>") = .ok r := by
  refine (fails_only_without_objects .lenient _).2 rfl ⟨⟨7, 3⟩, 6, ?_⟩
  exact ScanIndex.mem_objects_scan.mp (by decide +kernel)

end Resolve

end CrossReference
