import CrossReference.Proofs.Chain.Extension
import CrossReference.Proofs.Resolve.Outcome
import CrossReference.Proofs.Sweep.Settled

set_option autoImplicit false

/-! # Resolutions without complaints

What a resolution tells by not complaining. A sweep without complaints found every entry at its
offset and changed nothing (`confirmed_of_notes`), a walk without complaints read every section of
its route up to the last one, and `Quiet` puts this together. The other way round, a document that
is `Quiet` and lists anything is resolved without complaints (`resolve_of_quiet`). -/

namespace CrossReference

/-! ## Sweeps -/

namespace Sweep

/-- A header stays where it is if the document goes on. -/
theorem headerAt?_extend {file : Bytes} {offset : Nat} {k : Key}
    (h : headerAt? file offset = some k) (more : Bytes) :
    headerAt? (file ++ 0x0A :: more) offset = some k := by
  obtain ⟨c, hread⟩ := headerAt?_eq_some.mp h
  have hle : offset ≤ file.length := by
    have hne := Reader.rest_ne_nil_of_header hread
    rw [ne_eq, List.drop_eq_nil_iff] at hne
    omega
  refine headerAt?_eq_some.mpr ⟨c.extend more, ?_⟩
  rw [Cursor.extend_drop hle]
  exact Reader.extends_header _ _ _ hread

variable {file : Bytes} {lastOffset? : Key → Option Nat}

theorem check_of_found {s : Sweep} {entry : Key × Nat}
    (h : headerAt? file entry.2 = some entry.1) : check file lastOffset? s entry = s := by
  unfold check
  rw [h]
  exact if_pos rfl

theorem foldl_check_of_found {entries : List (Key × Nat)}
    (h : ∀ e ∈ entries, headerAt? file e.2 = some e.1) (s : Sweep) :
    entries.foldl (check file lastOffset?) s = s := by
  induction entries with
  | nil => rfl
  | cons e rest ih =>
    rw [List.foldl_cons, check_of_found (h e List.mem_cons_self)]
    exact ih fun e' he' => h e' (List.mem_cons_of_mem e he')

/-- Every entry for an object in the document itself has an offset with a header for its key. -/
def Confirmed (file : Bytes) (t : Table) : Prop :=
  ∀ k offset, t.get? k = some (.direct offset) → headerAt? file offset = some k

theorem run_of_confirmed {t : Table} (h : Confirmed file t) (repair : Bool) :
    run repair file t = { table := t } :=
  foldl_check_of_found (fun e he => h e.1 e.2 (Table.mem_directOffsets.mp he)) _

/-- A sweep only goes without complaints if it finds all entries. -/
theorem confirmed_of_notes {t : Table} {repair : Bool} (h : (run repair file t).notes = []) :
    Confirmed file t := by
  intro k offset hget
  have hsubjects := subjects_run repair file t
  rw [h, List.map_nil, eq_comm, List.map_eq_nil_iff, List.filter_eq_nil_iff] at hsubjects
  have hlocated := hsubjects (k, offset) (Table.mem_directOffsets.mpr hget)
  simp only [decide_eq_true_eq, Decidable.not_not] at hlocated
  exact headerAt?_eq_some_iff_located.mpr hlocated

end Sweep

/-! ## Walks -/

namespace Route

variable (options : Options) (file : Bytes)

/-- A walk without complaints: the link to the newest section holds or is not there, every section
    is read without complaints, and none is left out. -/
structure Quiet : Prop where
  start : startNotes options file = []
  legs : ∀ l ∈ Route.legs options file, l.notes = []
  ending : Route.ending options file = .last

theorem quiet_iff : Quiet options file ↔ (Chain.walk options file).notes = [] := by
  rw [Chain.notes_walk, List.append_eq_nil_iff, List.append_eq_nil_iff, List.flatMap_eq_nil_iff]
  constructor
  · rintro ⟨hstart, hlegs, hending⟩
    rw [hending]
    exact ⟨⟨hstart, hlegs⟩, rfl⟩
  · rintro ⟨⟨hstart, hlegs⟩, hending⟩
    exact ⟨hstart, hlegs, Ending.eq_last_of_notes hending⟩

variable {options file}

/-- Where a quiet walk begins, if a document says where its newest section is. -/
theorem Quiet.holds (quiet : Quiet options file) {offset : Nat}
    (h : (StartLink.find options file).1 = some offset) :
    LinkRole.start.holds options file offset = true := by
  have hnotes := quiet.start
  unfold startNotes at hnotes
  rw [h] at hnotes
  exact LinkRole.holds_of_notes (List.append_eq_nil_iff.mp hnotes).2

theorem start?_of_holds {offset : Nat} (h : (StartLink.find options file).1 = some offset)
    (hholds : LinkRole.start.holds options file offset = true) :
    start? options file = some offset := by
  unfold start?
  rw [h, Option.bind_some, LinkRole.target?_of_holds [] hholds]

end Route

/-! ## Resolutions -/

namespace Resolve

variable (options : Options) (file : Bytes)

/-- A document without complaints that lists something: its walk is quiet, and each offset that the
    walk gives is right. -/
structure Quiet : Prop where
  route : Route.Quiet options file
  confirmed : Sweep.Confirmed file (Chain.walk options file).table
  lists : ∃ k, (Chain.walk options file).table.get? k ≠ none

variable {options file}

theorem sweep_of_confirmed (h : Sweep.Confirmed file (Chain.walk options file).table) :
    sweep options file = { table := (Chain.walk options file).table } := by
  unfold sweep swept
  rw [Sweep.run_of_confirmed h]
  split <;> rfl

/-- Such a document is resolved without complaints, and its table is that of the walk. -/
theorem resolve_of_quiet (h : Quiet options file) :
    resolve options file = .ok
      { table := (Chain.walk options file).table
        trailer := (Chain.walk options file).trailer
        revisions := (Chain.walk options file).revisions
        diagnostics := []
        excluded := []
        recovery := none } := by
  have hsweep := sweep_of_confirmed h.confirmed
  have hempty : (Chain.walk options file).table.isEmpty = false := by
    rw [Bool.eq_false_iff]
    intro hempty
    obtain ⟨k, hk⟩ := h.lists
    exact hk (Table.isEmpty_iff.mp hempty k)
  have hnotes : chainNotes options file = [] := by
    unfold chainNotes
    rw [hsweep, (Route.quiet_iff options file).mp h.route]
    rfl
  have hkept : kept options [] = [] := by
    unfold kept
    split <;> rfl
  have hserves : chainServes options file = true := by
    unfold chainServes
    rw [hsweep, hempty]
    rfl
  rw [resolve_eq, if_pos hserves]
  unfold ofChain
  rw [hsweep, hnotes, hkept]

/-- A document that is resolved without complaints, where complaints are kept, offsets verified and
    tables not rebuilt, is quiet. -/
theorem quiet_of_resolve {r : Resolution} (hcollect : options.collect = true)
    (hverify : options.verifyOffsets = true) (hrebuild : options.rebuild = false)
    (resolved : resolve options file = .ok r) (clean : r.diagnostics = []) :
    Quiet options file ∧ r = ofChain options file := by
  rcases resolve_eq_ok resolved with ⟨hserves, rfl⟩ | ⟨_, hrebuild', _⟩
  · refine ⟨?_, rfl⟩
    have hnotes : chainNotes options file = [] := by
      change kept options (chainNotes options file) = [] at clean
      unfold kept at clean
      rwa [hcollect] at clean
    unfold chainNotes at hnotes
    obtain ⟨hchain, _⟩ := List.append_eq_nil_iff.mp hnotes
    obtain ⟨hwalk, hsweep⟩ := List.append_eq_nil_iff.mp hchain
    rw [sweep_of_verify hverify hserves] at hsweep
    refine ⟨(Route.quiet_iff options file).mpr hwalk, Sweep.confirmed_of_notes hsweep, ?_⟩
    -- a chain that lists nothing is of no use
    refine Classical.byContradiction fun hnone => ?_
    have hall : ∀ k, (Chain.walk options file).table.get? k = none := fun k =>
      Classical.byContradiction fun hk => hnone ⟨k, hk⟩
    have hempty := isEmpty_of_chainServes hserves
    rw [Table.isEmpty_iff.mpr hall] at hempty
    cases hempty
  · rw [hrebuild] at hrebuild'
    cases hrebuild'

end Resolve

end CrossReference
