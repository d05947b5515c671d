import CrossReference.Proofs.Bytes.Search
import CrossReference.Proofs.Chain.Visited
import CrossReference.Proofs.Chain.Walk
import CrossReference.Proofs.Scan.Headers
import CrossReference.Proofs.Section.Probe

set_option autoImplicit false

/-! # Substitutes for bad offsets

A link that leads nowhere is repaired with the nearest section that the link accepts and that was
not followed before (`usableOffset_nearest`). It is looked for among the tables at the front of
lines, and among the objects there whose first bytes show the name of cross-reference streams. This
glance saves reading every object of a document, and it has its price: a stream that does not show
its type there, be it that its dictionary is long or that it names no type at all, is a section for
every link that leads to it, but no substitute (`streams_overlooked`). -/

namespace CrossReference

variable {options : Options} {file : Bytes}

namespace Repair

/-! ## The nearest offset -/

theorem nearest?_eq_none {offset : Nat} {candidates : List Nat} :
    nearest? offset candidates = none ↔ candidates = [] := by
  cases candidates with
  | nil => simp [nearest?]
  | cons candidate rest =>
    unfold nearest?
    split
    · simp
    · split <;> simp

/-- No candidate is nearer than the one that is taken. -/
theorem distance_le_of_nearest? {offset found : Nat} {candidates : List Nat}
    (h : nearest? offset candidates = some found) :
    ∀ candidate ∈ candidates, distance found offset ≤ distance candidate offset := by
  induction candidates generalizing found with
  | nil => cases h
  | cons candidate rest ih =>
    unfold nearest? at h
    split at h
    · rename_i hnone
      obtain rfl := Option.some.inj h
      rw [nearest?_eq_none.mp hnone]
      exact List.forall_mem_singleton.mpr (Nat.le_refl _)
    · rename_i other hother
      have hrest := ih hother
      split at h
      · rename_i hlt
        obtain rfl := Option.some.inj h
        exact List.forall_mem_cons.mpr ⟨Nat.le_of_lt hlt, hrest⟩
      · rename_i hle
        obtain rfl := Option.some.inj h
        refine List.forall_mem_cons.mpr ⟨Nat.le_refl _, fun c hc => ?_⟩
        exact Nat.le_trans (Nat.le_of_not_lt hle) (hrest c hc)

/-! ## Candidates -/

/-- Whether the first bytes from an offset on show the name of cross-reference streams. -/
def Shows (file : Bytes) (offset : Nat) : Prop :=
  ascii "/XRef" <:+: (file.drop offset).take glance

variable {tolerance : Tolerance} {offset : Nat}

/-- The keyword at the front of a line is taken for a table. -/
theorem probe_of_tableMarker (h : ScanIndex.TableMarker file offset) :
    Section.probe tolerance file offset = some .table := by
  obtain ⟨_, tail, hline, _⟩ := h
  have htext := ScanIndex.line_append_drop (file.drop offset)
  rw [hline, List.append_assoc] at htext
  have hstop : Bytes.Stops Byte.isWhite (file.drop offset) := by
    rw [← htext]
    exact Bytes.stops_cons.mpr (by decide)
  have hfront : ([] ++ file.drop offset).dropWhile Byte.isWhite = file.drop offset :=
    Bytes.dropWhile_run nofun hstop
  rw [List.nil_append] at hfront
  rw [Section.probe_eq_table, hfront, ← htext]
  exact List.prefix_append _ _

/-- An object header is not taken for a table. -/
theorem probe_ne_table_of_marker {k : Key} (h : ScanIndex.Marker file k offset) :
    Section.probe tolerance file offset ≠ some .table := by
  obtain ⟨f, hf, _⟩ := h.exists_form
  obtain ⟨b, number, hnumber, hdigit⟩ :=
    Bytes.exists_cons_of_run f.isNumber.isDigit f.isNumber.ne_nil
  have hwhite : Byte.isWhite b = false := by
    cases hw : Byte.isWhite b with
    | false => rfl
    | true =>
      rw [Byte.not_isDigit_of_isWhite hw] at hdigit
      cases hdigit
  rw [ne_eq, Section.probe_eq_table, ← hf, ScanIndex.HeaderForm.text, hnumber, List.cons_append,
    List.dropWhile_cons, hwhite]
  rintro ⟨more, hmore⟩
  obtain rfl : 0x78 = b := (List.cons.inj hmore).1
  exact absurd hdigit (by decide)

/-- A section at the front of a line, of which the document gives enough away to a glance. -/
structure Visible (tolerance : Tolerance) (file : Bytes) (kind : SectionKind) (offset : Nat) :
    Prop where
  leads : ScanIndex.TableMarker file offset ∨ ∃ k, ScanIndex.Marker file k offset
  section_ : Section.probe tolerance file offset = some kind
  shows : kind = .stream → Shows file offset

/-- The candidates for a repair are the visible sections. -/
theorem mem_candidates {kind : SectionKind} :
    (offset, kind) ∈ candidates tolerance file ↔ Visible tolerance file kind offset := by
  have hname : ascii "/XRef" ≠ [] := by decide
  unfold candidates
  dsimp only
  simp only [List.mem_append, List.mem_map, List.mem_filter, Prod.mk.injEq, decide_eq_true_eq,
    Bool.and_eq_true, Bytes.isSome_first? hname, ScanIndex.mem_tables_scan]
  constructor
  · rintro (⟨_, ⟨hmarker, hprobe⟩, rfl, rfl⟩ | ⟨⟨k, _⟩, ⟨hmem, hshows, hprobe⟩, rfl, rfl⟩)
    · exact ⟨Or.inl hmarker, hprobe, nofun⟩
    · exact ⟨Or.inr ⟨k, ScanIndex.mem_objects_scan.mp hmem⟩, hprobe, fun _ => hshows⟩
  · rintro ⟨hleads, hprobe, hshows⟩
    cases kind with
    | table =>
      rcases hleads with hmarker | ⟨k, hmarker⟩
      · exact Or.inl ⟨offset, ⟨hmarker, hprobe⟩, rfl, rfl⟩
      · exact absurd hprobe (probe_ne_table_of_marker hmarker)
    | stream =>
      rcases hleads with hmarker | ⟨k, hmarker⟩
      · rw [probe_of_tableMarker hmarker] at hprobe
        cases hprobe
      · exact Or.inr ⟨(k, offset), ⟨ScanIndex.mem_objects_scan.mpr hmarker, hshows rfl, hprobe⟩,
          rfl, rfl⟩

/-- A section that can take the place of a bad offset. -/
def Eligible (options : Options) (file : Bytes) (visited : List Nat) (role : LinkRole)
    (offset : Nat) : Prop :=
  offset ∉ visited ∧
    ∃ kind, role.accepts kind = true ∧ Visible options.toTolerance file kind offset

/-- A substitute is looked for among the sections that can take the place. -/
theorem mem_offered {visited : List Nat} {role : LinkRole} :
    offset ∈ ((candidates options.toTolerance file).filter fun c =>
      role.accepts c.2 && !visited.contains c.1).map (·.1) ↔
        Eligible options file visited role offset := by
  simp only [List.mem_map, List.mem_filter, Bool.and_eq_true, Bool.not_eq_true',
    List.contains_eq_mem, decide_eq_false_iff_not, Eligible]
  constructor
  · rintro ⟨⟨_, kind⟩, ⟨hmem, haccepts, hnew⟩, rfl⟩
    exact ⟨hnew, kind, haccepts, mem_candidates.mp hmem⟩
  · rintro ⟨hnew, kind, haccepts, hvisible⟩
    exact ⟨(offset, kind), ⟨mem_candidates.mpr hvisible, haccepts, hnew⟩, rfl⟩

end Repair

namespace Chain

/-- With repairs, an offset at which a link finds no section that it accepts is replaced by that of
    an eligible section, and by that of one at the least distance. The link is dropped exactly if
    there is none. -/
theorem usableOffset_nearest (repairs : options.repairOffsets = true) {role : LinkRole}
    {offset : Nat} (bad : role.holds options file offset = false) (ch : Chain) :
    let found := ((usableOffset options file role offset).run ch).1
    (∀ substitute, found = some substitute →
      Repair.Eligible options file ch.visited role substitute ∧
        ∀ other, Repair.Eligible options file ch.visited role other →
          Repair.distance substitute offset ≤ Repair.distance other offset) ∧
    (found = none ↔ ∀ other, ¬Repair.Eligible options file ch.visited role other) := by
  intro found
  have hfound : found = Repair.nearest? offset
      (((Repair.candidates options.toTolerance file).filter fun c =>
        role.accepts c.2 && !ch.visited.contains c.1).map (·.1)) := by
    change ((usableOffset options file role offset).run ch).1 = _
    rw [run_usableOffset]
    dsimp only
    rw [LinkRole.target?, if_neg (by simp [bad]), Repair.substitute?, if_pos repairs]
  rw [hfound]
  constructor
  · intro substitute h
    refine ⟨Repair.mem_offered.mp (Repair.mem_of_nearest? h), fun other hother => ?_⟩
    exact Repair.distance_le_of_nearest? h other (Repair.mem_offered.mpr hother)
  · rw [Repair.nearest?_eq_none, List.eq_nil_iff_forall_not_mem]
    exact forall_congr' fun other => not_congr Repair.mem_offered

/-- Two tables, and a link that misses both. -/
def missedDocument : Bytes :=
  ["xref\n0 0\ntrailer<<>>\n", "xref\n0 0\ntrailer<<>>\n", "startxref\n30\n"].flatMap ascii

theorem missedDocument_nearest :
    LinkRole.start.holds .tolerant missedDocument 30 = false ∧
      Repair.Eligible .tolerant missedDocument [] .start 21 ∧
      ∀ other, Repair.Eligible .tolerant missedDocument [] .start other →
        Repair.distance 21 30 ≤ Repair.distance other 30 := by
  have bad : LinkRole.start.holds .tolerant missedDocument 30 = false := by
    decide +kernel
  have found : ((usableOffset .tolerant missedDocument .start 30).run {}).1 = some 21 := by
    decide +kernel
  exact ⟨bad, (usableOffset_nearest rfl bad {}).1 21 found⟩

/-- A document with one stream, whose dictionary names its type behind a long gap. -/
def distantDocument : Bytes :=
  ascii "1 0 obj<<" ++ List.replicate 512 0x20 ++
    ["/Type/XRef/Size 2/W[1 1 1]/Index[1 1]/Length 3>>stream\n\x01\x00\x00endstream\n",
      "endobj\nstartxref\n999\n"].flatMap ascii

/-- A document with one stream, whose dictionary names no type. -/
def untypedDocument : Bytes :=
  ["1 0 obj<</Size 2/W[1 1 1]/Index[1 1]/Length 3>>stream\n\x01\x00\x00endstream\n",
    "endobj\nstartxref\n999\n"].flatMap ascii

/-- A section at the front of a line that the link accepts and that was not followed before, and yet
    the link is dropped. -/
theorem streams_overlooked :
    LinkRole.start.accepts .stream = true ∧ ∀ file ∈ [distantDocument, untypedDocument],
      LinkRole.start.holds .tolerant file 999 = false ∧
      (⟨1, 0⟩, 0) ∈ (ScanIndex.scan file).objects ∧
      Section.probe Options.tolerant.toTolerance file 0 = some .stream ∧
      ((usableOffset .tolerant file .start 999).run {}).1 = none := by
  decide +kernel

end Chain

end CrossReference
