import CrossReference.Proofs.Chain.Trailers
import CrossReference.Proofs.Resolve.Outcome

set_option autoImplicit false

/-! # The trailer of a document

The trailer of a document is put together from the dictionaries of its sections, of which the newest
with a name has the say, and it remembers where they stood. A rebuild gives values to some names,
but leaves the offsets alone. -/

namespace CrossReference

namespace Chain

variable (options : Options) (file : Bytes)

/-- The offsets of a walk's trailer are those of its sections' trailers, each of them once. -/
theorem offsets_trailer_walk :
    (walk options file).trailer.offsets =
      ((walk options file).revisions.map (·.trailerOffset)).eraseDups := by
  have hstep := congrArg (List.map (·.2)) (trailers_in_step options file)
  simp only [List.map_map, Function.comp_def] at hstep
  have hempty : Trailer.empty.offsets = ([] : List Nat).eraseDups := rfl
  rw [trailer_walk, Trailer.offsets_mergeAll _ hempty, List.nil_append, ← hstep]

/-- The trailer of a walk has for each name the value in the first section whose dictionary has the
    name, unless the name describes a section. -/
theorem get?_trailer_walk (n : Name) :
    (walk options file).trailer.get? n =
      if n ∈ Trailer.sectionNames then none
      else (walk options file).revisions.findSome? fun r =>
        (r.dict? options.toTolerance file).bind (·.get? n) := by
  have hstep := congrArg (List.findSome? fun t : Option (Dict Object) × Nat => t.1.bind (·.get? n))
    (trailers_in_step options file)
  simp only [List.findSome?_map, Function.comp_def, Option.bind_some] at hstep
  rw [trailer_walk, Trailer.get?_mergeAll, hstep]
  exact Option.none_or

theorem isSome_dict?_of_walk {r : Revision} (hr : r ∈ (walk options file).revisions) :
    (r.dict? options.toTolerance file).isSome = true := by
  have hmem : (r.dict? options.toTolerance file, r.trailerOffset) ∈
      ((Route.legs options file).flatMap (·.trailers)).map fun t => (some t.1, t.2) := by
    rw [trailers_in_step]
    exact List.mem_map_of_mem hr
  obtain ⟨t, _, ht⟩ := List.mem_map.mp hmem
  rw [← (Prod.mk.inj ht).1]
  rfl

end Chain

namespace Resolve

/-- The trailer of a document is that of its sections in the order in which they are listed. Their
    offsets are kept, each of them once, also if the table is rebuilt. If it is not, a name has its
    value in the first of the sections whose dictionary has the name, unless it describes a section.
    Every section that is listed has a dictionary; a table comes before its companion, and both
    before what the table links to as older. -/
theorem trailer_of_revisions {options : Options} {file : Bytes} {r : Resolution}
    (resolved : resolve options file = .ok r) :
    r.trailer.offsets = (r.revisions.map (·.trailerOffset)).eraseDups ∧
    (r.recovery = none → ∀ n, r.trailer.get? n =
      if n ∈ Trailer.sectionNames then none
      else r.revisions.findSome? fun rev =>
        (rev.dict? options.toTolerance file).bind (·.get? n)) ∧
    (∀ rev ∈ r.revisions, (rev.dict? options.toTolerance file).isSome = true) ∧
    r.revisions = (Route.legs options file).flatMap (·.revisions) ∧
    (∀ l ∈ Route.legs options file, l.Linked options file) ∧
    ∀ newer l older' older, Route.legs options file = newer ++ l :: older' :: older →
      l.next = some older'.offset := by
  have hrevisions : r.revisions = (Chain.walk options file).revisions := by
    rcases resolve_eq_ok resolved with ⟨_, rfl⟩ | ⟨_, _, rebuilt, _, rfl⟩ <;> rfl
  have hoffsets : r.trailer.offsets = (Chain.walk options file).trailer.offsets := by
    rcases resolve_eq_ok resolved with ⟨_, rfl⟩ | ⟨_, _, rebuilt, hrebuilt, rfl⟩
    · rfl
    · exact Recovery.offsets_run hrebuilt
  refine ⟨?_, ?_, ?_, ?_, ?_, fun _ _ _ _ => Route.next_eq_of_legs⟩
  · rw [hoffsets, hrevisions, Chain.offsets_trailer_walk]
  · intro unrebuilt n
    obtain rfl := eq_ofChain resolved unrebuilt
    exact Chain.get?_trailer_walk options file n
  · rw [hrevisions]
    exact fun rev hrev => Chain.isSome_dict?_of_walk options file hrev
  · rw [hrevisions, Chain.revisions_walk]
  · intro l hl
    obtain ⟨visited, offset, rfl⟩ := Route.exists_read_of_mem_legs hl
    exact (Leg.linked_read options file visited offset).1

/-- A table with a companion in front of an older table. Both tables and the companion give names of
    their own and names that another one gives too. -/
def layeredDocument : Bytes :=
  ["%PDF\nxref\n0 1\n0000000000 65535 f \n", "trailer<</Size 1/ID 7/Info 1 0 R>>\n",
    "9 0 obj<</Type/XRef/Size 2/W[1 1 1]", "/Index[1 1]/Info 2 0 R/Root 3 0 R/Length 3>>",
    "stream\n\x00\x00\x00endstream\n", "xref\n0 1\n0000000000 65535 f \n",
    "trailer<</Root 4 0 R/XRefStm 69/Prev 5>>", "\nstartxref\n168"].flatMap ascii

theorem layeredDocument_trailer :
    ∃ r, resolve .lenient layeredDocument = .ok r ∧ r.recovery = none ∧
      r.revisions = [⟨168, .table, 197⟩, ⟨69, .stream, 69⟩, ⟨5, .table, 34⟩] ∧
      r.trailer.offsets = [197, 69, 34] ∧
      (r.trailer.get? "Root").bind Object.reference? = some ⟨4, 0⟩ ∧
      (r.trailer.get? "Info").bind Object.reference? = some ⟨2, 0⟩ ∧
      (r.trailer.get? "ID").bind Object.nat? = some 7 ∧ r.trailer.get? "Prev" = none := by
  have run : chainServes .lenient layeredDocument = true ∧
      (ofChain .lenient layeredDocument).revisions =
        [⟨168, .table, 197⟩, ⟨69, .stream, 69⟩, ⟨5, .table, 34⟩] := by
    decide +kernel
  have resolved : resolve .lenient layeredDocument = .ok (ofChain .lenient layeredDocument) := by
    rw [resolve_eq, if_pos run.1]
  obtain ⟨offsets, values, _⟩ := trailer_of_revisions resolved
  have values := values rfl
  refine ⟨_, resolved, rfl, run.2, ?_, ?_, ?_, ?_, ?_⟩
  · rw [offsets, run.2]
    rfl
  · rw [values, run.2]
    decide +kernel
  · rw [values, run.2]
    decide +kernel
  · rw [values, run.2]
    decide +kernel
  · exact values "Prev"

end Resolve

end CrossReference
