import CrossReference.Proofs.Chain.Visited
import CrossReference.Proofs.Section.Dictionary
import CrossReference.Proofs.Trailer.Merging

set_option autoImplicit false

/-! # Trailers along the route

Trailers are merged and sections are listed at different points of a walk, and a section that breaks
off gives neither. `Leg.linked_read` says which sections a leg lists, from which dictionaries its
links come, and that it has a trailer for each section and for no other; `trailer_walk` puts the
legs together. -/

namespace CrossReference

namespace Leg

variable (options : Options) (file : Bytes)

/-- Which sections a leg lists, and where their dictionaries lead. -/
inductive Linked (l : Leg) : Prop where
  /-- A section that cannot be read is not listed and leads nowhere. -/
  | unread (revisions : l.revisions = []) (next : l.next = none)
  /-- The dictionary of a stream leads on. -/
  | stream (trailer : Dict Object) (visited : List Nat)
      (revisions : l.revisions = [⟨l.offset, .stream, l.offset⟩])
      (dict : Section.streamDictAt? options.toTolerance file l.offset = some trailer)
      (next : l.next = (prevLink options file visited trailer).1)
  /-- The trailer of a table leads on. -/
  | table (trailer : Dict Object) (trailerOffset : Nat) (visited : List Nat)
      (revisions : l.revisions = [⟨l.offset, .table, trailerOffset⟩])
      (dict : Section.trailerAt? options.toTolerance file trailerOffset = some trailer)
      (next : l.next = (prevLink options file visited trailer).1)
  /-- The trailer of a table leads on, and to a companion that is listed behind the table. Where the
      companion's own dictionary leads does not matter. -/
  | hybrid (trailer : Dict Object) (trailerOffset companion : Nat) (visited visited' : List Nat)
      (revisions : l.revisions =
        [⟨l.offset, .table, trailerOffset⟩, ⟨companion, .stream, companion⟩])
      (dict : Section.trailerAt? options.toTolerance file trailerOffset = some trailer)
      (link : (companionLink options file visited' trailer).1 = some companion)
      (next : l.next = (prevLink options file visited trailer).1)

/-- The trailers of a leg are the dictionaries of the sections that it lists, one for each. -/
def InStep (tolerance : Tolerance) (l : Leg) : Prop :=
  l.trailers.map (fun t => (some t.1, t.2)) =
    l.revisions.map fun r => (r.dict? tolerance file, r.trailerOffset)

theorem inStep_ofStream (tolerance : Tolerance) (fault : String) (offset : Nat) :
    InStep file tolerance (ofStream file tolerance fault offset) := by
  unfold ofStream
  split
  · rfl
  · rename_i s notes hread
    simp [InStep, Revision.dict?, Section.streamDictAt?_of_readStream hread]

theorem revisions_ofStream (tolerance : Tolerance) (fault : String) (offset : Nat) :
    (ofStream file tolerance fault offset).revisions = [] ∨
    (ofStream file tolerance fault offset).revisions = [⟨offset, .stream, offset⟩] := by
  unfold ofStream
  split
  · exact Or.inl rfl
  · exact Or.inr rfl

theorem linked_stream (visited : List Nat) (offset : Nat) :
    Linked options file (stream options file visited offset) ∧
      InStep file options.toTolerance (stream options file visited offset) := by
  have hstep := inStep_ofStream file options.toTolerance "Xref stream is unusable: " offset
  unfold stream
  unfold ofStream at hstep ⊢
  dsimp only at hstep ⊢
  cases hread : Section.readStream options.toTolerance file offset with
  | mk result notes =>
    rw [hread] at hstep
    cases result with
    | error e => exact ⟨.unread rfl rfl, hstep⟩
    | ok s =>
      have hdict := Section.streamDictAt?_of_readStream hread
      exact ⟨.stream s.entries visited rfl hdict rfl, hstep⟩

theorem linked_table (visited : List Nat) (offset : Nat) :
    Linked options file (table options file visited offset) ∧
      InStep file options.toTolerance (table options file visited offset) := by
  unfold table
  cases hread : Section.readTable options.toTolerance file offset with
  | error e draft => exact ⟨.unread rfl rfl, rfl⟩
  | ok found draft =>
    obtain ⟨trailerOffset, trailer⟩ := found
    have hdict := Section.trailerAt?_of_readTable hread
    have hown : (some trailer, trailerOffset) =
        ((⟨offset, .table, trailerOffset⟩ : Revision).dict? options.toTolerance file,
          trailerOffset) := by
      rw [Revision.dict?, hdict]
    dsimp only
    unfold withCompanion
    split
    · exact ⟨.table trailer trailerOffset _ rfl hdict rfl, congrArg (fun x => [x]) hown⟩
    · rename_i companion notes hlink
      have hstep := inStep_ofStream file options.toTolerance
        "Hybrid xref stream is unusable: " companion
      have hboth : (some trailer, trailerOffset) :: _ = _ :: _ :=
        (congrArg (List.cons _) hstep).trans (congrArg (List.cons · _) hown)
      refine ⟨?_, hboth⟩
      have hcompanion : (companionLink options file visited trailer).1 = some companion := by
        rw [hlink]
      rcases revisions_ofStream file options.toTolerance "Hybrid xref stream is unusable: "
        companion with hnone | hsome
      · exact .table trailer trailerOffset _ (congrArg (List.cons _) hnone) hdict rfl
      · exact .hybrid trailer trailerOffset companion _ visited (congrArg (List.cons _) hsome) hdict
          hcompanion rfl

/-- A leg lists the sections that it could read, each with its trailer. -/
theorem linked_read (visited : List Nat) (offset : Nat) :
    Linked options file (read options file visited offset) ∧
      InStep file options.toTolerance (read options file visited offset) := by
  unfold read
  split
  · exact linked_table options file visited offset
  · exact linked_stream options file visited offset
  · exact ⟨.unread rfl rfl, rfl⟩

variable {options file} in
theorem inStep_flatMap {tolerance : Tolerance} {legs : List Leg}
    (h : ∀ l ∈ legs, InStep file tolerance l) :
    (legs.flatMap (·.trailers)).map (fun t => (some t.1, t.2)) =
      (legs.flatMap (·.revisions)).map fun r => (r.dict? tolerance file, r.trailerOffset) := by
  induction legs with
  | nil => rfl
  | cons l rest ih =>
    rw [List.flatMap_cons, List.flatMap_cons, List.map_append, List.map_append,
      ih fun l' hl' => h l' (List.mem_cons_of_mem l hl'), h l List.mem_cons_self]

end Leg

/-! ## The route -/

namespace Route

variable {options : Options} {file : Bytes}

theorem Course.offset_head {visited : List Nat} {offset left : Nat} {l : Leg} {older : List Leg}
    {ending : Ending} (h : Course options file visited offset left (l :: older) ending) :
    l.offset = offset := by
  cases h <;> rfl

/-- Each leg leads to the one behind it. -/
theorem Course.next_eq {visited : List Nat} {offset left : Nat} {legs : List Leg}
    {ending : Ending} (h : Course options file visited offset left legs ending)
    {newer older : List Leg} {l l' : Leg} (split : legs = newer ++ l :: l' :: older) :
    l.next = some l'.offset := by
  induction h generalizing newer with
  | cycle | limit => simp at split
  | last => cases newer <;> simp at split
  | step _ _ link rest ih =>
    cases newer with
    | nil =>
      obtain ⟨rfl, rfl⟩ := List.cons.inj split
      rw [link, rest.offset_head]
    | cons first newer => exact ih (List.cons.inj split).2

theorem next_eq_of_legs {newer older : List Leg} {l l' : Leg}
    (split : Route.legs options file = newer ++ l :: l' :: older) : l.next = some l'.offset := by
  rcases course_legs options file with ⟨hlegs, _⟩ | ⟨offset, _, course⟩
  · rw [hlegs] at split
    simp at split
  · exact course.next_eq split

end Route

/-! ## The walk -/

namespace Chain

variable (options : Options) (file : Bytes)

theorem trailer_foldl_absorb (legs : List Leg) (ch : Chain) :
    (legs.foldl absorb ch).trailer =
      (legs.flatMap (·.trailers)).foldl (fun t d => t.merge d.1 d.2) ch.trailer := by
  induction legs generalizing ch with
  | nil => rfl
  | cons l rest ih =>
    rw [List.foldl_cons, ih, List.flatMap_cons, List.foldl_append]
    rfl

theorem trailer_walk :
    (walk options file).trailer = ((Route.legs options file).flatMap (·.trailers)).foldl
      (fun t d => t.merge d.1 d.2) .empty := by
  have h := trailer_foldl_absorb (Route.legs options file) (outset options file)
  rw [walk_eq]
  exact h

/-- The trailers that a walk merges are the dictionaries of the sections that it lists, in the same
    order. -/
theorem trailers_in_step :
    ((Route.legs options file).flatMap (·.trailers)).map (fun t => (some t.1, t.2)) =
      (walk options file).revisions.map fun r =>
        (r.dict? options.toTolerance file, r.trailerOffset) := by
  rw [revisions_walk]
  refine Leg.inStep_flatMap fun l hl => ?_
  obtain ⟨visited, offset, rfl⟩ := Route.exists_read_of_mem_legs hl
  exact (Leg.linked_read options file visited offset).2

end Chain

end CrossReference
