import CrossReference.Proofs.Chain.Walk
import CrossReference.Proofs.Resolve.Outcome
import CrossReference.Proofs.Section.Draft

set_option autoImplicit false

/-! # Which entry of a table counts

Documents are updated by adding sections, so for each key the newest section that lists it has the
say. `get?_foldl_absorb` is this rule for the walk, at any point of its route; `get?_overlay` is the
exception for a table and its companion. `Leg.Source` says where the records of a leg come from: a
table gives what was read of it up to its end or a fault, a stream gives all of its records or none.
-/

namespace CrossReference

/-! ## The records of one section -/

namespace Section

/-- The records of the stream at an offset; none if there is any fault. -/
def streamRecords (tolerance : Tolerance) (file : Bytes) (offset : Nat) : List (Key × Entry) :=
  match (readStream tolerance file offset).1 with
  | .ok s => s.records
  | .error _ => []

end Section

namespace Leg

variable (options : Options) (file : Bytes)

/-- Where the records of a leg come from, by the form of its section. -/
inductive Source (l : Leg) : Prop where
  /-- A table gives its records, and the stream that its trailer links to gives those of its own. -/
  | table (form : Section.probe options.toTolerance file l.offset = some .table)
      (own : l.own = Section.tableRecords options.toTolerance file l.offset)
      (hidden : l.hidden =
        (l.companion.map (Section.streamRecords options.toTolerance file)).getD [])
  /-- A stream gives its records. -/
  | stream (form : Section.probe options.toTolerance file l.offset = some .stream)
      (own : l.own = Section.streamRecords options.toTolerance file l.offset)
      (hidden : l.hidden = [])
  /-- Where no section stands there are no records. -/
  | nothing (form : Section.probe options.toTolerance file l.offset = none)
      (own : l.own = []) (hidden : l.hidden = [])

theorem own_ofStream (tolerance : Tolerance) (fault : String) (offset : Nat) :
    (ofStream file tolerance fault offset).own = Section.streamRecords tolerance file offset := by
  unfold ofStream Section.streamRecords
  obtain ⟨result, notes⟩ := Section.readStream tolerance file offset
  cases result <;> rfl

theorem hidden_ofStream (tolerance : Tolerance) (fault : String) (offset : Nat) :
    (ofStream file tolerance fault offset).hidden = [] := by
  unfold ofStream
  split <;> rfl

theorem own_withCompanion (l : Leg) (visited : List Nat) (trailer : Dict Object) :
    (l.withCompanion options file visited trailer).own = l.own := by
  unfold withCompanion
  split <;> rfl

/-- A leg without companion that gets one also gets the records of that companion. -/
theorem hidden_withCompanion {l : Leg} (hl : l.hidden = []) (hc : l.companion = none)
    (visited : List Nat) (trailer : Dict Object) :
    (l.withCompanion options file visited trailer).hidden =
      ((l.withCompanion options file visited trailer).companion.map
        (Section.streamRecords options.toTolerance file)).getD [] := by
  unfold withCompanion
  split
  · simp only [hl, hc, Option.map_none, Option.getD_none]
  · simp only [Option.map_some, Option.getD_some]
    exact own_ofStream file options.toTolerance _ _

theorem own_table (visited : List Nat) (offset : Nat) :
    (table options file visited offset).own =
      Section.tableRecords options.toTolerance file offset := by
  unfold table
  rw [← Section.records_readTable]
  cases Section.readTable options.toTolerance file offset with
  | error e draft => rfl
  | ok found draft =>
    obtain ⟨trailerOffset, trailer⟩ := found
    exact own_withCompanion options file _ visited trailer

theorem hidden_table (visited : List Nat) (offset : Nat) :
    (table options file visited offset).hidden =
      ((table options file visited offset).companion.map
        (Section.streamRecords options.toTolerance file)).getD [] := by
  unfold table
  cases Section.readTable options.toTolerance file offset with
  | error e draft => rfl
  | ok found draft =>
    obtain ⟨trailerOffset, trailer⟩ := found
    exact hidden_withCompanion options file rfl rfl visited trailer

theorem own_stream (visited : List Nat) (offset : Nat) :
    (stream options file visited offset).own =
      Section.streamRecords options.toTolerance file offset := by
  unfold stream
  dsimp only
  rw [← own_ofStream]
  split <;> rfl

theorem hidden_stream (visited : List Nat) (offset : Nat) :
    (stream options file visited offset).hidden = [] := by
  unfold stream
  dsimp only
  rw [← hidden_ofStream file options.toTolerance "Xref stream is unusable: " offset]
  split <;> rfl

theorem source_read (visited : List Nat) (offset : Nat) :
    (read options file visited offset).Source options file := by
  have hoffset := offset_read options file visited offset
  unfold read at hoffset ⊢
  cases hform : Section.probe options.toTolerance file offset with
  | none => exact .nothing hform rfl rfl
  | some kind =>
    simp only [hform] at hoffset
    cases kind with
    | table =>
      refine .table ?_ ?_ (hidden_table options file visited offset)
      · rw [hoffset, hform]
      · rw [hoffset]
        exact own_table options file visited offset
    | stream =>
      refine .stream ?_ ?_ (hidden_stream options file visited offset)
      · rw [hoffset, hform]
      · rw [hoffset]
        exact own_stream options file visited offset

end Leg

theorem Route.source_of_mem_legs {options : Options} {file : Bytes} {l : Leg}
    (hl : l ∈ legs options file) : l.Source options file := by
  obtain ⟨visited, offset, rfl⟩ := exists_read_of_mem_legs hl
  exact Leg.source_read options file visited offset

/-! ## The entries of one leg -/

theorem Leg.shown_none (own : Option Entry) : Leg.shown own none = own := by
  unfold Leg.shown
  split <;> rfl

namespace Chain

/-- One record of a companion, laid over a table. -/
theorem get?_overlayStep (t : Table) (k j : Key) (e : Entry) :
    (if (t.get? k).any Entry.isInUse then t else (t.remove k).add k e).get? j =
      if j = k then Leg.shown (t.get? j) (some e) else t.get? j := by
  by_cases hj : j = k
  · subst hj
    rw [if_pos rfl, Leg.shown]
    by_cases hu : (t.get? j).any Entry.isInUse
    · rw [if_pos hu, if_pos hu]
    · rw [if_neg hu, if_neg hu, Table.get?_add]
      simp
  · rw [if_neg hj]
    by_cases hu : (t.get? k).any Entry.isInUse
    · rw [if_pos hu]
    · rw [if_neg hu, Table.get?_add]
      simp [hj]

/-- Since no key comes twice among the entries of a table, each of them meets the entry that stood
    there before the first. -/
theorem get?_overlayAll {entries : List (Key × Entry)}
    (distinct : entries.Pairwise fun a b => a.1 < b.1) (t : Table) (k : Key) :
    (entries.foldl (fun t e =>
      if (t.get? e.1).any Entry.isInUse then t else (t.remove e.1).add e.1 e.2) t).get? k =
      Leg.shown (t.get? k) (OrderedMap.lookup k entries) := by
  induction entries generalizing t with
  | nil => exact (Leg.shown_none _).symm
  | cons e rest ih =>
    obtain ⟨habove, hrest⟩ := List.pairwise_cons.mp distinct
    rw [List.foldl_cons, ih hrest, get?_overlayStep]
    by_cases hk : k = e.1
    · subst hk
      rw [if_pos rfl, OrderedMap.lookup_eq_none_of_above habove, Leg.shown_none]
      simp [OrderedMap.lookup]
    · rw [if_neg hk]
      simp [OrderedMap.lookup, hk]

theorem get?_overlay (own hidden : Table) (k : Key) :
    (overlay own hidden).get? k = Leg.shown (own.get? k) (hidden.get? k) :=
  get?_overlayAll hidden.entries.ascending own k

end Chain

theorem Leg.get?_entries (l : Leg) (k : Key) : l.entries.get? k = l.listed? k := by
  rw [entries, Chain.get?_overlay, Table.get?_ofList, Table.get?_ofList]
  rfl

/-! ## The entries of a walk -/

namespace Chain

/-- The table of a walk at any point: what was there counts first, then one leg after the other. -/
theorem get?_foldl_absorb (legs : List Leg) (ch : Chain) (k : Key) :
    (legs.foldl absorb ch).table.get? k =
      (ch.table.get? k).or (legs.findSome? (·.listed? k)) := by
  induction legs generalizing ch with
  | nil => simp
  | cons l rest ih =>
    have hstep : (ch.absorb l).table.get? k = (ch.table.get? k).or (l.listed? k) := by
      rw [← Leg.get?_entries]
      exact Table.get?_merge ch.table l.entries k
    rw [List.foldl_cons, ih, hstep, Option.or_assoc, List.findSome?_cons]
    cases l.listed? k <;> rfl

theorem revisions_foldl_absorb (legs : List Leg) (ch : Chain) :
    (legs.foldl absorb ch).revisions = ch.revisions ++ legs.flatMap (·.revisions) := by
  induction legs generalizing ch with
  | nil => simp
  | cons l rest ih =>
    have hstep : (ch.absorb l).revisions = ch.revisions ++ l.revisions := rfl
    rw [List.foldl_cons, ih, hstep, List.append_assoc, List.flatMap_cons]

variable (options : Options) (file : Bytes)

theorem table_walk :
    (walk options file).table =
      ((Route.legs options file).foldl absorb (outset options file)).table := by
  rw [walk_eq]
  rfl

theorem tight_foldl_absorb (legs : List Leg) {ch : Chain} (h : ch.table.Tight) :
    (legs.foldl absorb ch).table.Tight := by
  induction legs generalizing ch with
  | nil => exact h
  | cons l rest ih => exact ih (h.merge l.entries)

theorem tight_walk : (walk options file).table.Tight := by
  rw [table_walk]
  exact tight_foldl_absorb _ Table.tight_empty

theorem get?_walk (k : Key) :
    (walk options file).table.get? k = (Route.legs options file).findSome? (·.listed? k) := by
  rw [table_walk, get?_foldl_absorb]
  exact Option.none_or

theorem revisions_walk :
    (walk options file).revisions = (Route.legs options file).flatMap (·.revisions) := by
  have h := revisions_foldl_absorb (Route.legs options file) (outset options file)
  rw [walk_eq]
  exact h

end Chain

/-! ## The entries of a document -/

/-- If offsets are not verified and nothing is rebuilt, the table of a document maps each key to the
    entry in the first section of the route that lists it, and it has no other key. Whatever part of
    the route is read, what its sections list is not changed or removed by those behind it. -/
theorem Resolve.table_eq_first_listed {options : Options} {file : Bytes} {r : Resolution}
    (unverified : options.verifyOffsets = false) (resolved : resolve options file = .ok r)
    (unrebuilt : r.recovery = none) :
    (∀ k, r.table.get? k = (Route.legs options file).findSome? (·.listed? k)) ∧
    (∀ l ∈ Route.legs options file, l.Source options file) ∧
    r.revisions = (Route.legs options file).flatMap (·.revisions) ∧
    ∀ newer older, Route.legs options file = newer ++ older → ∀ k e,
      (newer.foldl Chain.absorb (Chain.outset options file)).table.get? k = some e →
      r.table.get? k = some e := by
  obtain rfl := eq_ofChain resolved unrebuilt
  have htable : (ofChain options file).table = (Chain.walk options file).table := by
    rw [ofChain, sweep_of_not_verify unverified]
  refine ⟨?_, ?_, Chain.revisions_walk options file, ?_⟩
  · intro k
    rw [htable, Chain.get?_walk]
  · exact fun l hl => Route.source_of_mem_legs hl
  · intro newer older hsplit k e he
    rw [htable, Chain.table_walk, hsplit, List.foldl_append, Chain.get?_foldl_absorb, he,
      Option.some_or]

/-- A table with one entry that its companion overrules and one of its own, in front of an older
    table that has entries for two objects. -/
def hybridDocument : Bytes :=
  ["%PDF\nxref\n1 2\n", "0000000011 00000 n \n", "0000000012 00000 n \n", "trailer<</Size 3>>\n",
    "9 0 obj<</Type/XRef/Size 4", "/W[1 1 1]/Index[1 1]/Length 3>>",
    "stream\n\x01\x15\x00endstream\n", "xref\n1 1\n0000000000 00000 f \n",
    "3 1\n0000000023 00000 n \n", "trailer<</Size 4/XRefStm 73/Prev 5>>",
    "\nstartxref\n150"].flatMap ascii

theorem hybridDocument_first_listed :
    let options : Options := { Options.lenient with verifyOffsets := false }
    ∃ r, resolve options hybridDocument = .ok r ∧
      (∀ k, r.table.get? k = (Route.legs options hybridDocument).findSome? (·.listed? k)) ∧
      r.table.toList = [(⟨1, 0⟩, .direct 21), (⟨2, 0⟩, .direct 12), (⟨3, 0⟩, .direct 23)] := by
  intro options
  have run : Resolve.chainServes options hybridDocument = true ∧
      (Resolve.ofChain options hybridDocument).table.toList =
        [(⟨1, 0⟩, .direct 21), (⟨2, 0⟩, .direct 12), (⟨3, 0⟩, .direct 23)] := by
    decide +kernel
  have resolved : resolve options hybridDocument =
      .ok (Resolve.ofChain options hybridDocument) := by
    rw [Resolve.resolve_eq, if_pos run.1]
  exact ⟨_, resolved, (Resolve.table_eq_first_listed rfl resolved rfl).1, run.2⟩

end CrossReference
