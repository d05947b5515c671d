import CrossReference.Resolve

set_option autoImplicit false

/-! # The outcomes of a resolution

There are two ways to a result. Either the chain of sections is of use, and the result is `ofChain`;
or it is of no use and the table is rebuilt, and the result is `ofRebuild`. `resolve_eq` says which
of them is taken, and that without a result there are two errors: `unusableTable` if no rebuild is
wanted, or that of the rebuild. -/

namespace CrossReference

namespace Resolve

variable (options : Options) (file : Bytes)

/-- What the sweep leaves of the chain's table. -/
def sweep : Sweep := swept options file (Chain.walk options file).table

/-- Whether the chain is of use. -/
def chainServes : Bool :=
  !(Chain.walk options file).table.isEmpty && !lostAll (sweep options file)

/-- All complaints up to the point where the chain is judged. -/
def chainNotes : List Diagnostic :=
  (Chain.walk options file).notes ++ (sweep options file).notes ++ lostNotes (sweep options file)

/-- The complaints that a result keeps. -/
def kept (notes : List Diagnostic) : List Diagnostic := if options.collect then notes else []

/-- The result if the chain is of use. -/
def ofChain : Resolution where
  table := (sweep options file).table
  trailer := (Chain.walk options file).trailer
  revisions := (Chain.walk options file).revisions
  diagnostics := kept options (chainNotes options file)
  excluded := (sweep options file).excluded
  recovery := none

/-- The result of a rebuild. -/
def ofRebuild (rebuilt : Recovery × Trailer) : Resolution where
  table := rebuilt.1.table
  trailer := rebuilt.2
  revisions := (Chain.walk options file).revisions
  diagnostics := kept options (chainNotes options file ++ rebuilt.1.notes)
  excluded := (sweep options file).excluded
  recovery := some rebuilt.1.stats

/-- The rebuild that takes place if the chain is of no use. -/
def rebuild : Except Error (Recovery × Trailer) :=
  Recovery.run options file (.scan file) (Chain.walk options file).trailer

theorem recordAll_kept (notes : List Diagnostic) :
    ((⟨options.collect, []⟩ : Log).recordAll notes).entries = kept options notes := by
  rw [Log.entries_recordAll, List.nil_append]
  rfl

/-- The resolution of a document, case by case. -/
theorem resolve_eq :
    resolve options file =
      if chainServes options file then .ok (ofChain options file)
      else if options.rebuild then (rebuild options file).map (ofRebuild options file)
      else .error .unusableTable := by
  unfold resolve
  simp only [recordAll_kept]
  change (if chainServes options file then _ else _) = _
  by_cases hserves : chainServes options file
  · rw [if_pos hserves, if_pos hserves]
    rfl
  · rw [if_neg hserves, if_neg hserves]
    by_cases hrebuild : options.rebuild
    · rw [if_pos hrebuild, if_pos hrebuild]
      unfold rebuild
      cases Recovery.run options file (.scan file) (Chain.walk options file).trailer <;> rfl
    · rw [if_neg hrebuild, if_neg hrebuild]

variable {options file} {r : Resolution}

/-- A result comes from the chain or from a rebuild. -/
theorem resolve_eq_ok (h : resolve options file = .ok r) :
    (chainServes options file ∧ r = ofChain options file) ∨
    (¬chainServes options file ∧ options.rebuild ∧
      ∃ rebuilt, rebuild options file = .ok rebuilt ∧ r = ofRebuild options file rebuilt) := by
  rw [resolve_eq] at h
  split at h
  · rename_i hserves
    exact Or.inl ⟨hserves, (Except.ok.inj h).symm⟩
  · rename_i hserves
    split at h
    · rename_i hrebuild
      cases hr : rebuild options file with
      | error e =>
        rw [hr] at h
        cases h
      | ok rebuilt =>
        rw [hr] at h
        exact Or.inr ⟨hserves, hrebuild, rebuilt, rfl, (Except.ok.inj h).symm⟩
    · cases h

/-- A result that is not rebuilt comes from the chain. -/
theorem eq_ofChain (h : resolve options file = .ok r) (hr : r.recovery = none) :
    r = ofChain options file := by
  rcases resolve_eq_ok h with ⟨_, hr'⟩ | ⟨_, _, rebuilt, _, rfl⟩
  · exact hr'
  · cases hr

/-- A result that is rebuilt comes from a rebuild. -/
theorem exists_rebuilt (h : resolve options file = .ok r) (hr : r.recovered = true) :
    ∃ rebuilt, rebuild options file = .ok rebuilt ∧ r = ofRebuild options file rebuilt := by
  rcases resolve_eq_ok h with ⟨_, rfl⟩ | ⟨_, _, rebuilt, hrebuilt, hr'⟩
  · cases hr
  · exact ⟨rebuilt, hrebuilt, hr'⟩

/-- A chain that is of use has entries. -/
theorem isEmpty_of_chainServes (h : chainServes options file = true) :
    (Chain.walk options file).table.isEmpty = false := by
  unfold chainServes at h
  rw [Bool.and_eq_true, Bool.not_eq_true'] at h
  exact h.1

/-- If offsets are verified and the chain is of use, the sweep takes place. -/
theorem sweep_of_verify (hv : options.verifyOffsets = true)
    (hserves : chainServes options file = true) :
    sweep options file = .run options.repairOffsets file (Chain.walk options file).table := by
  unfold sweep swept
  rw [isEmpty_of_chainServes hserves, hv]
  rfl

/-- If offsets are not verified, the sweep leaves the table as it is. -/
theorem sweep_of_not_verify (hv : options.verifyOffsets = false) :
    sweep options file = { table := (Chain.walk options file).table } := by
  unfold sweep swept
  rw [hv, Bool.not_false, Bool.or_true, if_pos rfl]

end Resolve

end CrossReference
