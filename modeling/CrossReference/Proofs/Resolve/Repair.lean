import CrossReference.Proofs.Resolve.Quiet

set_option autoImplicit false

/-! # Repairs that are not called for

Repairs of offsets are made in two places, and each of them is only reached behind a complaint: a
link is repaired when no section stands where it leads, an entry when its object does not. So
without such complaints it does not matter whether repairs are wanted. This is shown for the walk
leg by leg (`Leg.read_repairing`), since a leg depends on the links in front of it, then for the
sweep, and put together for the resolution. A rebuild may follow, which makes no repairs. -/

namespace CrossReference

variable {options : Options} {file : Bytes} {repairs : Bool}

/-! ## Links -/

/-- No complaint is about an offset at which no section stands. -/
def LinksHold (notes : List Diagnostic) : Prop := ∀ d ∈ notes, d.kind ≠ .offsetInvalid

theorem linksHold_append {notes notes' : List Diagnostic} :
    LinksHold (notes ++ notes') ↔ LinksHold notes ∧ LinksHold notes' := List.forall_mem_append

namespace LinkRole

theorem holds_of_linksHold {role : LinkRole} {offset : Nat}
    (h : LinksHold (role.notes options file offset)) : role.holds options file offset = true := by
  unfold notes at h
  split at h
  · assumption
  · exact absurd rfl (h _ List.mem_cons_self)

/-- A link that holds is followed as it is. -/
theorem target?_repairing {role : LinkRole} {offset : Nat}
    (h : LinksHold (role.notes options file offset)) (visited : List Nat) :
    role.target? { options with repairOffsets := repairs } file visited offset =
      role.target? options file visited offset := by
  have holds := holds_of_linksHold h
  rw [target?_of_holds visited holds]
  exact target?_of_holds visited holds

end LinkRole

/-! ## Legs -/

namespace Leg

theorem prevLink_repairing {visited : List Nat} {trailer : Dict Object}
    (h : LinksHold (prevLink options file visited trailer).2) :
    prevLink { options with repairOffsets := repairs } file visited trailer =
      prevLink options file visited trailer := by
  unfold prevLink at h ⊢
  split at h
  · rfl
  · rfl
  · simp only [LinkRole.target?_repairing h]
    rfl
  · rfl

theorem companionLink_repairing {visited : List Nat} {trailer : Dict Object}
    (h : LinksHold (companionLink options file visited trailer).2) :
    companionLink { options with repairOffsets := repairs } file visited trailer =
      companionLink options file visited trailer := by
  have hnotes {n : Nat} (htrailer : trailer.get? "XRefStm" = some (.integer (.ofNat (n + 1)))) :
      LinksHold (LinkRole.companion.notes options file (n + 1)) := by
    obtain ⟨more, hmore⟩ := notes_companionLink htrailer
    rw [hmore] at h
    exact (linksHold_append.mp h).1
  unfold companionLink
  split
  · rfl
  · rename_i n htrailer
    simp only [LinkRole.target?_repairing (hnotes htrailer)]
    rfl
  · rfl

theorem withCompanion_repairing {l : Leg} {visited : List Nat} {trailer : Dict Object}
    (h : LinksHold (l.withCompanion options file visited trailer).notes) :
    l.withCompanion { options with repairOffsets := repairs } file visited trailer =
      l.withCompanion options file visited trailer := by
  have hlink : LinksHold (companionLink options file visited trailer).2 := by
    obtain ⟨more, hmore⟩ := notes_withCompanion l visited trailer
    rw [hmore] at h
    exact (linksHold_append.mp (linksHold_append.mp h).1).2
  simp only [withCompanion, companionLink_repairing hlink]

theorem table_repairing {visited : List Nat} {offset : Nat}
    (h : LinksHold (table options file visited offset).notes) :
    table { options with repairOffsets := repairs } file visited offset =
      table options file visited offset := by
  cases hread : Section.readTable options.toTolerance file offset with
  | error e draft => simp only [table, hread]
  | ok found draft =>
    simp only [table, hread, followedBy] at h ⊢
    obtain ⟨hown, hprev⟩ := linksHold_append.mp h
    rw [withCompanion_repairing hown, prevLink_repairing hprev]

theorem stream_repairing {visited : List Nat} {offset : Nat}
    (h : LinksHold (stream options file visited offset).notes) :
    stream { options with repairOffsets := repairs } file visited offset =
      stream options file visited offset := by
  simp only [stream, followedBy] at h ⊢
  split at h
  · rw [prevLink_repairing (linksHold_append.mp h).2]
  · rfl

/-- What a walk gets from a section does not depend on whether repairs are wanted, if all links in
    the section hold. -/
theorem read_repairing {visited : List Nat} {offset : Nat}
    (h : LinksHold (read options file visited offset).notes) :
    read { options with repairOffsets := repairs } file visited offset =
      read options file visited offset := by
  cases hform : Section.probe options.toTolerance file offset with
  | none => simp only [read, hform]
  | some kind =>
    simp only [read, hform] at h ⊢
    cases kind with
    | table => exact table_repairing h
    | stream => exact stream_repairing h

end Leg

/-! ## The route -/

namespace Route

theorem legsFrom_repairing {left : Nat} {visited : List Nat} {offset : Nat}
    (h : ∀ l ∈ legsFrom options file visited offset left, LinksHold l.notes) :
    legsFrom { options with repairOffsets := repairs } file visited offset left =
        legsFrom options file visited offset left ∧
      endingFrom { options with repairOffsets := repairs } file visited offset left =
        endingFrom options file visited offset left := by
  induction left generalizing visited offset with
  | zero => exact ⟨rfl, rfl⟩
  | succ left ih =>
    cases hnew : visited.contains offset with
    | true => simp only [legsFrom, endingFrom, hnew, if_true, and_self]
    | false =>
      rw [legsFrom_of_new hnew] at h
      dsimp only at h
      obtain ⟨hread, hrest⟩ := List.forall_mem_cons.mp h
      simp only [legsFrom_of_new hnew, endingFrom_of_new hnew, Leg.read_repairing hread]
      cases hnext : (Leg.read options file (offset :: visited) offset).next with
      | none => exact ⟨rfl, rfl⟩
      | some next =>
        rw [hnext] at hrest
        obtain ⟨hlegs, hending⟩ := ih hrest
        exact ⟨congrArg _ hlegs, hending⟩

theorem start?_repairing (h : LinksHold (startNotes options file)) :
    start? { options with repairOffsets := repairs } file = start? options file := by
  have hlink := (linksHold_append.mp h).2
  have hfind : StartLink.find { options with repairOffsets := repairs } file =
      StartLink.find options file := rfl
  unfold start?
  rw [hfind]
  cases hstart : (StartLink.find options file).1 with
  | none => rfl
  | some offset =>
    rw [hstart] at hlink
    exact LinkRole.target?_repairing hlink []

theorem legs_repairing (hstart : LinksHold (startNotes options file))
    (hlegs : ∀ l ∈ legs options file, LinksHold l.notes) :
    legs { options with repairOffsets := repairs } file = legs options file ∧
      ending { options with repairOffsets := repairs } file = ending options file := by
  unfold legs ending at *
  rw [start?_repairing hstart]
  cases hoffset : start? options file with
  | none => exact ⟨rfl, rfl⟩
  | some offset =>
    rw [hoffset] at hlegs
    exact legsFrom_repairing hlegs

end Route

/-- A walk on which all links hold is the same with repairs and without. -/
theorem Chain.walk_repairing (h : LinksHold (walk options file).notes) :
    walk { options with repairOffsets := repairs } file = walk options file := by
  rw [notes_walk, linksHold_append, linksHold_append] at h
  obtain ⟨⟨hstart, hnotes⟩, -⟩ := h
  have hlegs : ∀ l ∈ Route.legs options file, LinksHold l.notes := fun l hl d hd =>
    hnotes d (List.mem_flatMap.mpr ⟨l, hl, hd⟩)
  have legs_eq : Route.legs { options with repairOffsets := repairs } file =
      Route.legs options file := (Route.legs_repairing hstart hlegs).1
  have ending_eq : Route.ending { options with repairOffsets := repairs } file =
      Route.ending options file := (Route.legs_repairing hstart hlegs).2
  rw [walk_eq, walk_eq, legs_eq, ending_eq]
  rfl

/-! ## The sweep -/

theorem Sweep.kind_of_mem_notes_run {repair : Bool} {t : Table} {d : Diagnostic}
    (hd : d ∈ (run repair file t).notes) : d.kind = .offsetMismatch := by
  have hsubject : d.subject ∈ (run repair file t).notes.map Diagnostic.subject :=
    List.mem_map_of_mem hd
  rw [subjects_run] at hsubject
  obtain ⟨e, -, he⟩ := List.mem_map.mp hsubject
  exact (congrArg Prod.fst he).symm

namespace Resolve

/-- A sweep that finds every object at its offset is the same with repairs and without. -/
theorem swept_repairing {t : Table}
    (h : ∀ d ∈ (swept options file t).notes, d.kind ≠ .offsetMismatch) :
    swept { options with repairOffsets := repairs } file t = swept options file t := by
  by_cases hnone : (t.isEmpty || !options.verifyOffsets) = true
  · simp only [swept, hnone, if_true]
  · simp only [swept, hnone, if_false, Bool.false_eq_true] at h ⊢
    have hnotes : (Sweep.run options.repairOffsets file t).notes = [] :=
      List.eq_nil_iff_forall_not_mem.mpr fun d hd => h d hd (Sweep.kind_of_mem_notes_run hd)
    have hconfirmed := Sweep.confirmed_of_notes hnotes
    rw [Sweep.run_of_confirmed hconfirmed, Sweep.run_of_confirmed hconfirmed]

/-! ## The resolution -/

variable (options file) in
/-- The complaints of a rebuild, if one takes place and comes to a result. -/
def rebuildNotes : List Diagnostic :=
  if chainServes options file || !options.rebuild then []
  else
    match rebuild options file with
    | .ok rebuilt => rebuilt.1.notes
    | .error _ => []

variable (options file) in
/-- All complaints that a resolution records, be it that it ends with a result or with an error. -/
def recorded : List Diagnostic :=
  kept options (chainNotes options file ++ rebuildNotes options file)

/-- A result has the complaints that were recorded. -/
theorem diagnostics_eq_recorded {r : Resolution} (resolved : resolve options file = .ok r) :
    r.diagnostics = recorded options file := by
  unfold recorded rebuildNotes
  rcases resolve_eq_ok resolved with
    ⟨hserves, rfl⟩ | ⟨hserves, hrebuild, rebuilt, hrebuilt, rfl⟩
  · simp only [hserves, Bool.true_or, if_true, List.append_nil]
    rfl
  · simp only [hserves, hrebuild, hrebuilt, Bool.not_true, Bool.or_false, Bool.false_eq_true,
      if_false]
    rfl

/-- A resolution only makes repairs in the walk and in the sweep. -/
theorem resolve_of_unrepaired
    (walk_eq : Chain.walk { options with repairOffsets := repairs } file =
      Chain.walk options file)
    (sweep_eq : sweep { options with repairOffsets := repairs } file = sweep options file) :
    resolve { options with repairOffsets := repairs } file = resolve options file ∧
      recorded { options with repairOffsets := repairs } file = recorded options file := by
  have notes_eq : chainNotes { options with repairOffsets := repairs } file =
      chainNotes options file := by
    simp only [chainNotes, walk_eq, sweep_eq]
  have serves_eq : chainServes { options with repairOffsets := repairs } file =
      chainServes options file := by
    simp only [chainServes, walk_eq, sweep_eq]
  -- a rebuild starts from the trailer of the walk, and looks for no repairs
  have rebuild_eq : rebuild { options with repairOffsets := repairs } file =
      rebuild options file := by
    unfold rebuild
    rw [walk_eq]
    rfl
  have chain_eq : ofChain { options with repairOffsets := repairs } file =
      ofChain options file := by
    simp only [ofChain, walk_eq, sweep_eq, notes_eq]
    rfl
  have rebuilt_eq : ofRebuild { options with repairOffsets := repairs } file =
      ofRebuild options file := by
    funext rebuilt
    simp only [ofRebuild, walk_eq, sweep_eq, notes_eq]
    rfl
  constructor
  · rw [resolve_eq, resolve_eq, serves_eq, rebuild_eq, chain_eq, rebuilt_eq]
  · simp only [recorded, rebuildNotes, notes_eq, serves_eq, rebuild_eq]
    rfl

/-- If complaints are collected and none is about an offset, neither of a section nor of an object,
    then it does not matter whether repairs of offsets are wanted: the error, or the result with all
    its parts, is the same, and so are the complaints. What is collected is what a result hands out,
    and it is there for a file that fails as well. -/
theorem repair_only_on_failure (collects : options.collect = true)
    (sound : ∀ d ∈ recorded options file,
      d.kind ≠ .offsetInvalid ∧ d.kind ≠ .offsetMismatch)
    (repairs : Bool) :
    resolve { options with repairOffsets := repairs } file = resolve options file ∧
      recorded { options with repairOffsets := repairs } file = recorded options file ∧
      ∀ r, resolve options file = .ok r → r.diagnostics = recorded options file := by
  have hrecorded : recorded options file = chainNotes options file ++ rebuildNotes options file :=
    if_pos collects
  rw [hrecorded] at sound
  have hchain := (List.forall_mem_append.mp sound).1
  unfold chainNotes at hchain
  obtain ⟨hwalk, hsweep⟩ := List.forall_mem_append.mp (List.forall_mem_append.mp hchain).1
  have walk_eq : Chain.walk { options with repairOffsets := repairs } file =
      Chain.walk options file := Chain.walk_repairing fun d hd => (hwalk d hd).1
  have sweep_eq : sweep { options with repairOffsets := repairs } file = sweep options file := by
    unfold sweep
    rw [walk_eq]
    exact swept_repairing fun d hd => (hsweep d hd).2
  obtain ⟨resolve_eq, recorded_eq⟩ := resolve_of_unrepaired walk_eq sweep_eq
  exact ⟨resolve_eq, recorded_eq, fun _ => diagnostics_eq_recorded⟩

/-- An object, and behind it a table without records that links to itself. -/
def circlingDocument : Bytes :=
  ["1 0 obj\n5\nendobj\n", "xref\n0 0\ntrailer<</Prev 17>>\n", "startxref\n17\n"].flatMap ascii

/-- The link holds, though it leads nowhere new, so there is nothing to repair before the table is
    rebuilt. -/
theorem circlingDocument_unrepaired :
    (recorded .lenient circlingDocument).map (·.kind) = [.revisionCycle, .structuralWarning] ∧
      resolve { Options.lenient with repairOffsets := true } circlingDocument =
        resolve .lenient circlingDocument ∧
      ∃ r, resolve .lenient circlingDocument = .ok r ∧ r.recovered = true := by
  have run : (recorded .lenient circlingDocument).map (·.kind) =
        [.revisionCycle, .structuralWarning] ∧
      (ScanIndex.scan circlingDocument).isEmpty = false ∧
      chainServes .lenient circlingDocument = false := by
    decide +kernel
  obtain ⟨kinds, found, serves⟩ := run
  have sound : ∀ d ∈ recorded .lenient circlingDocument,
      d.kind ≠ .offsetInvalid ∧ d.kind ≠ .offsetMismatch := by
    have hkinds : ∀ kind ∈ [DiagnosticKind.revisionCycle, .structuralWarning],
        kind ≠ .offsetInvalid ∧ kind ≠ .offsetMismatch := by decide
    intro d hd
    exact hkinds d.kind (kinds ▸ List.mem_map_of_mem hd)
  refine ⟨kinds, (repair_only_on_failure rfl sound true).1, ?_⟩
  rw [resolve_eq, serves, rebuild, Recovery.run_eq, found]
  exact ⟨_, rfl, rfl⟩

end Resolve

end CrossReference
