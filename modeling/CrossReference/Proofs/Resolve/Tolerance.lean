import CrossReference.Proofs.Chain.Visited
import CrossReference.Proofs.Resolve.Quiet
import CrossReference.Proofs.Section.Tolerance

set_option autoImplicit false

/-! # Resolutions and tolerance

What the strict reader resolves without complaints the other presets resolve in the same way. Their
additional means are never called for: the offset of the newest section is found in the first search
(`find_within`), every section on the way is read alike (`carries_within`), no link has to be
repaired, every offset of an object is right, and nothing is left to be rebuilt. -/

namespace CrossReference

variable {options options' : Options} {file : Bytes}

/-- What one reader takes from a document another one takes too, since it insists on no more. It
    searches the same tail of the document first, and reads as many sections at least. -/
structure Options.Within (options options' : Options) : Prop where
  tolerance : options.toTolerance.Within options'.toTolerance
  startWindow : options'.startWindow = options.startWindow
  extendedWindow : options.extendedWindow = 0
  maxRevisions : options.maxRevisions ≤ options'.maxRevisions

theorem Options.strict_within_lenient : Options.strict.Within .lenient :=
  ⟨⟨rfl, nofun, by decide⟩, rfl, rfl, by decide⟩

theorem Options.strict_within_tolerant : Options.strict.Within .tolerant :=
  ⟨⟨rfl, nofun, by decide⟩, rfl, rfl, by decide⟩

/-! ## The newest section -/

namespace StartLink

theorem keyword?_empty (file : Bytes) (length searched : Nat) :
    keyword? file length searched [0] = none := by
  unfold keyword?
  rw [if_pos (by omega)]
  rfl

/-- A keyword that is found without a second search is found whatever a second search may do. -/
theorem keyword?_of_first {window i : Nat}
    (h : keyword? file file.length 0 [window, 0] = some i) (rest : List Nat) :
    keyword? file file.length 0 (window :: rest) = some i := by
  unfold keyword? at h ⊢
  dsimp only at h ⊢
  split at h
  · rw [keyword?_empty] at h
    cases h
  · rename_i hsearch
    rw [if_neg hsearch]
    split at h
    · exact h
    · rw [keyword?_empty] at h
      cases h

theorem find_within (within : options.Within options') {offset? : Option Nat}
    (h : find options file = (offset?, [])) : find options' file = (offset?, []) := by
  unfold find at h ⊢
  rw [within.extendedWindow] at h
  rw [within.startWindow]
  split at h
  · rename_i keyword hkeyword
    rw [keyword?_of_first hkeyword]
    exact h
  · cases h

end StartLink

/-! ## The walk -/

theorem carries_within (within : options.Within options') (file : Bytes) :
    Carries options options' file file where
  probe h := Section.probe_within within.tolerance h
  stream h := Section.readStream_within within.tolerance h
  table _ h hnotes := ⟨_, Section.readTable_within within.tolerance h hnotes, rfl, hnotes⟩

namespace Route

/-- Where a quiet walk begins, it begins without complaints. -/
theorem Quiet.find (quiet : Quiet options file) :
    StartLink.find options file = ((StartLink.find options file).1, []) := by
  have hnotes := quiet.start
  unfold startNotes at hnotes
  exact Prod.ext rfl (List.append_eq_nil_iff.mp hnotes).1

/-- A walk without complaints is the same for a reader that insists on less. -/
theorem quiet_within (within : options.Within options') (quiet : Quiet options file) :
    legs options' file = legs options file ∧ Quiet options' file := by
  have hfind := quiet.find
  generalize (StartLink.find options file).1 = offset? at hfind
  have hfind' := StartLink.find_within within hfind
  cases offset? with
  | none =>
    have hlegs : legs options' file = legs options file := by
      rw [legs, start?, hfind', legs, start?, hfind]
      rfl
    refine ⟨hlegs, ?_, hlegs ▸ quiet.legs, ?_⟩
    · rw [startNotes, hfind']
      rfl
    · rw [ending, start?, hfind']
      rfl
  | some offset =>
    have hholds := quiet.holds (congrArg Prod.fst hfind)
    have hholds' := LinkRole.holds_carry (carries_within within file) hholds
    have hstart := start?_of_holds (congrArg Prod.fst hfind) hholds
    have hstart' := start?_of_holds (congrArg Prod.fst hfind') hholds'
    have hquiet := quiet.legs
    have hlast := quiet.ending
    rw [legs_of_start hstart] at hquiet
    rw [ending_of_start hstart] at hlast
    have hcourse : Course options file [] offset options.maxRevisions _ _ := course_legsFrom _ _ _
    -- nothing comes before this walk
    have hlater : ∀ x ∈ ([] : List Nat), file.length ≤ x := fun _ hx => (List.not_mem_nil hx).elim
    obtain ⟨hlegs, hlast'⟩ := legsFrom_carry (carries_within within file) hlater
      (LinkRole.lt_length_of_holds hholds) hquiet hlast
      (Nat.le_trans hcourse.length_le within.maxRevisions)
    rw [← legs_of_start hstart] at hlegs
    rw [List.append_nil] at hlegs hlast'
    rw [← legs_of_start hstart'] at hlegs
    refine ⟨hlegs, ?_, hlegs ▸ quiet.legs, ?_⟩
    · rw [startNotes, hfind']
      exact LinkRole.notes_of_holds hholds'
    · rw [ending_of_start hstart']
      exact hlast'

end Route

/-- The walk adds up the same legs, and nothing comes before or behind them. -/
theorem Chain.walk_within (within : options.Within options') (quiet : Route.Quiet options file) :
    walk options' file = walk options file := by
  obtain ⟨hlegs, quiet'⟩ := Route.quiet_within within quiet
  rw [walk_eq, walk_eq, hlegs, quiet.ending, quiet'.ending, finish_last, finish_last, outset,
    outset, quiet.start, quiet'.start]

/-! ## Resolutions -/

namespace Resolve

/-- A resolution that keeps its complaints and has none, verifies offsets and does not rebuild
    tables, is that of every reader that insists on less. -/
theorem resolve_within (within : options.Within options') (hcollect : options.collect = true)
    (hverify : options.verifyOffsets = true) (hrebuild : options.rebuild = false)
    {r : Resolution} (resolved : resolve options file = .ok r) (clean : r.diagnostics = []) :
    resolve options' file = .ok r ∧ r.excluded = [] ∧ r.recovery = none := by
  obtain ⟨quiet, rfl⟩ := quiet_of_resolve hcollect hverify hrebuild resolved clean
  have hwalk := Chain.walk_within within quiet.route
  have quiet' : Quiet options' file :=
    ⟨(Route.quiet_within within quiet.route).2, hwalk ▸ quiet.confirmed, hwalk ▸ quiet.lists⟩
  have hresult := resolve_of_quiet quiet
  have hresult' := resolve_of_quiet quiet'
  rw [hwalk, ← hresult, resolved] at hresult'
  obtain hr := Except.ok.inj (resolved.symm.trans hresult)
  exact ⟨hresult', hr ▸ rfl, hr ▸ rfl⟩

/-- What the strict reader resolves without complaints the lenient and the tolerant one resolve with
    the same result, which has nothing excluded and nothing rebuilt. -/
theorem strict_agrees {file : Bytes} {r : Resolution} (resolved : resolve .strict file = .ok r)
    (clean : r.diagnostics = []) :
    resolve .lenient file = .ok r ∧ resolve .tolerant file = .ok r ∧
      r.excluded = [] ∧ r.recovery = none := by
  obtain ⟨hlenient, hexcluded, hrecovery⟩ :=
    resolve_within Options.strict_within_lenient rfl rfl rfl resolved clean
  obtain ⟨htolerant, _⟩ := resolve_within Options.strict_within_tolerant rfl rfl rfl resolved clean
  exact ⟨hlenient, htolerant, hexcluded, hrecovery⟩

/-- A document with one object, a table, and a companion stream that lists the object. -/
def hybridDocument : Bytes :=
  ["%PDF\n1 0 obj\n5\nendobj\n", "2 0 obj<</Type/XRef/Size 2/W[1 1 1]/Index[1 1]/Length 3>>",
    "stream\n\x01\x05\x00\nendstream\nendobj\n", "xref\n0 1\n0000000000 65535 f \n",
    "trailer<</Size 2/XRefStm 22>>\nstartxref\n107\n%%EOF"].flatMap ascii

theorem hybridDocument_agrees :
    ∃ r, resolve .strict hybridDocument = .ok r ∧ r.diagnostics = [] ∧
      resolve .lenient hybridDocument = .ok r ∧ resolve .tolerant hybridDocument = .ok r ∧
      r.table.toList = [(⟨0, 65535⟩, .free 0), (⟨1, 0⟩, .direct 5)] ∧
      r.revisions = [⟨107, .table, 136⟩, ⟨22, .stream, 22⟩] := by
  have run : chainServes .strict hybridDocument = true ∧
      (ofChain .strict hybridDocument).diagnostics = [] ∧
      (ofChain .strict hybridDocument).table.toList =
        [(⟨0, 65535⟩, .free 0), (⟨1, 0⟩, .direct 5)] ∧
      (ofChain .strict hybridDocument).revisions = [⟨107, .table, 136⟩, ⟨22, .stream, 22⟩] := by
    decide +kernel
  obtain ⟨serves, clean, table, revisions⟩ := run
  have resolved : resolve .strict hybridDocument = .ok (ofChain .strict hybridDocument) := by
    rw [resolve_eq, if_pos serves]
  obtain ⟨hlenient, htolerant, _⟩ := strict_agrees resolved clean
  exact ⟨_, resolved, clean, hlenient, htolerant, table, revisions⟩

end Resolve

end CrossReference
