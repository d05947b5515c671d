import CrossReference.Proofs.Chain.Precedence
import CrossReference.Proofs.Table.Entries

set_option autoImplicit false

/-! # Objects that a table hides

A table may list an object as free and leave it to its companion to say where the object is. The
entries of the two are laid over each other key by key, and a key has a generation. So the
companion's entry takes the place of the free one only if both have the same generation; else both
are kept, and the one with the higher generation is the latest for the object. `hidden_latest_iff`
says for which objects that is an entry of the companion that is in use. On `shadowedDocument` it is
not: the free entry has the generation 65535, and members of object streams have none but 0. -/

namespace CrossReference

namespace Leg

theorem shown_of_free {own hidden : Option Entry}
    (free : ∀ e, own = some e → e.isInUse = false) : shown own hidden = hidden.or own := by
  unfold shown
  cases own with
  | none => rfl
  | some e =>
    rw [Option.any_some, free e rfl]
    rfl

variable {options : Options} {file : Bytes} {visited : List Nat} {trailer : Dict Object}

theorem hidden_followedBy (l : Leg) :
    (l.followedBy options file visited trailer).hidden = l.hidden := rfl

/-- A leg whose trailer links to a companion has the records of that stream. -/
theorem hidden_withCompanion_of_link (l : Leg) {companion : Nat}
    (link : (companionLink options file visited trailer).1 = some companion) :
    (l.withCompanion options file visited trailer).hidden =
      Section.streamRecords options.toTolerance file companion := by
  unfold withCompanion
  generalize companionLink options file visited trailer = found at link ⊢
  obtain ⟨_, notes⟩ := found
  obtain rfl : _ = some companion := link
  exact own_ofStream file options.toTolerance _ companion

end Leg

namespace Chain

/-- The entries of the table at an offset and those of its companion, if both are read to their
    ends. -/
def hybrid? (options : Options) (file : Bytes) (visited : List Nat) (offset : Nat) :
    Option (Table × Table) :=
  match Section.readTable options.toTolerance file offset with
  | .error _ _ => none
  | .ok (_, trailer) draft => do
    let companion ← (Leg.companionLink options file visited trailer).1
    match (Section.readStream options.toTolerance file companion).1 with
    | .error _ => none
    | .ok s => some (draft.table, .ofList s.records)

variable {options : Options} {file : Bytes} {visited : List Nat} {offset : Nat} {own hidden : Table}

/-- The two tables are those of the leg that is read at the offset. -/
theorem leg_of_hybrid (hybrid : hybrid? options file visited offset = some (own, hidden)) :
    own = .ofList (Leg.table options file visited offset).own ∧
      hidden = .ofList (Leg.table options file visited offset).hidden := by
  rw [Leg.own_table, ← Section.records_readTable]
  unfold hybrid? at hybrid
  unfold Leg.table
  cases hread : Section.readTable options.toTolerance file offset with
  | error e draft =>
    rw [hread] at hybrid
    cases hybrid
  | ok found draft =>
    obtain ⟨trailerOffset, trailer⟩ := found
    rw [hread] at hybrid
    obtain ⟨companion, hlink, hybrid⟩ := Option.bind_eq_some_iff.mp hybrid
    dsimp only
    rw [Leg.hidden_followedBy, Leg.hidden_withCompanion_of_link _ hlink, Section.streamRecords]
    cases hcompanion : (Section.readStream options.toTolerance file companion).1 with
    | error e =>
      rw [hcompanion] at hybrid
      cases hybrid
    | ok s =>
      rw [hcompanion] at hybrid
      cases hybrid
      exact ⟨rfl, rfl⟩

/-- What a table and its companion add to a walk that has no entries yet. -/
theorem get?_readTable (hybrid : hybrid? options file visited offset = some (own, hidden))
    (k : Key) :
    ((readTable options file offset).run { visited }).2.table.get? k =
      Leg.shown (own.get? k) (hidden.get? k) := by
  obtain ⟨hown, hhidden⟩ := leg_of_hybrid hybrid
  rw [run_readTable]
  change (Table.empty.merge (Leg.table options file visited offset).entries).get? k = _
  rw [Table.get?_merge, Table.get?_empty, Option.none_or, Leg.get?_entries, Leg.listed?, hown,
    hhidden, Table.get?_ofList, Table.get?_ofList]

/-- A table and its companion are read, and the table has only free entries for an object. Then for
    each generation the companion's entry for the object counts, if there is one, and else the
    table's. The latest entry for the object is one of the companion's that is in use exactly if the
    companion has such an entry with a generation that no entry of either for the object exceeds. -/
theorem hidden_latest_iff (hybrid : hybrid? options file visited offset = some (own, hidden))
    {number : Nat}
    (free : ∀ k e, k.number = number → own.get? k = some e → e.isInUse = false) :
    let t := ((readTable options file offset).run { visited }).2.table
    (∀ k, k.number = number → t.get? k = (hidden.get? k).or (own.get? k)) ∧
    ((∃ k e, t.latest? number = some (k, e) ∧ hidden.get? k = some e ∧ e.isInUse = true) ↔
      ∃ k e, k.number = number ∧ hidden.get? k = some e ∧ e.isInUse = true ∧
        ∀ j, j.number = number → (own.get? j).isSome ∨ (hidden.get? j).isSome →
          j.generation ≤ k.generation) := by
  intro t
  have hget : ∀ k, k.number = number → t.get? k = (hidden.get? k).or (own.get? k) := by
    intro k hk
    rw [get?_readTable hybrid]
    exact Leg.shown_of_free fun e he => free k e hk he
  have hsome : ∀ j, j.number = number →
      ((t.get? j).isSome ↔ (own.get? j).isSome ∨ (hidden.get? j).isSome) := by
    intro j hj
    rw [hget j hj, Option.isSome_or, Bool.or_eq_true, or_comm]
  refine ⟨hget, ?_⟩
  simp only [Table.latest?_eq_some]
  constructor
  · rintro ⟨k, e, ⟨hk, _, hgreatest⟩, hhidden, huse⟩
    exact ⟨k, e, hk, hhidden, huse, fun j hj hlisted => hgreatest j hj ((hsome j hj).mpr hlisted)⟩
  · rintro ⟨k, e, hk, hhidden, huse, hgreatest⟩
    have hlatest : t.get? k = some e := by
      rw [hget k hk, hhidden, Option.some_or]
    exact ⟨k, e, ⟨hk, hlatest, fun j hj hlisted => hgreatest j hj ((hsome j hj).mp hlisted)⟩,
      hhidden, huse⟩

/-- The object 1 of the document has one generation in both. -/
theorem hybridDocument_hidden_latest :
    ∃ k e, ((readTable .lenient hybridDocument 150).run { visited := [150] }).2.table.latest? 1 =
      some (k, e) ∧ Table.get? (.ofList [(⟨1, 0⟩, .direct 21)]) k = some e ∧ e.isInUse = true := by
  have hybrid : hybrid? .lenient hybridDocument [150] 150 =
      some (.ofList [(⟨1, 0⟩, .free 0), (⟨3, 0⟩, .direct 23)], .ofList [(⟨1, 0⟩, .direct 21)]) := by
    decide +kernel
  have hown : ∀ k : Key, k.number = 1 →
      Table.get? (.ofList [(⟨1, 0⟩, .free 0), (⟨3, 0⟩, .direct 23)]) k =
        if k = ⟨1, 0⟩ then some (.free 0) else none := by
    intro k hk
    have hthree : k ≠ ⟨3, 0⟩ := fun h => by simp [h] at hk
    simp [Table.get?_ofList, OrderedMap.lookup, hthree]
  have hhidden : ∀ k : Key, Table.get? (.ofList [(⟨1, 0⟩, .direct 21)]) k =
      if k = ⟨1, 0⟩ then some (.direct 21) else none := by
    intro k
    simp [Table.get?_ofList, OrderedMap.lookup]
  refine (hidden_latest_iff hybrid ?_).2.mpr ⟨⟨1, 0⟩, .direct 21, rfl, by decide, rfl, ?_⟩
  · intro k e hk he
    rw [hown k hk] at he
    by_cases h : k = ⟨1, 0⟩
    · rw [if_pos h] at he
      exact Option.some.inj he ▸ rfl
    · rw [if_neg h] at he
      cases he
  · intro k hk hlisted
    rw [hown k hk, hhidden k] at hlisted
    by_cases h : k = ⟨1, 0⟩
    · exact Nat.le_of_eq (congrArg Key.generation h)
    · simp [h] at hlisted

/-- A table that lists an object as free with the generation 65535, and a companion that has it as a
    member of an object stream. -/
def shadowedDocument : Bytes :=
  [" 9 0 obj<</Type/XRef/Size 6/W[1 1 1]", "/Index[5 1]/Length 3>>stream\n\x02\x07\x00endstream\n",
    "endobj\nxref\n5 1\n0000000000 65535 f \n",
    "trailer<</Size 6/XRefStm 1>>\nstartxref\n85\n"].flatMap ascii

theorem shadowedDocument_latest_free :
    hybrid? .strict shadowedDocument [85] 85 =
      some (.ofList [(⟨5, 65535⟩, .free 0)], .ofList [(⟨5, 0⟩, .compressed 7 0)]) ∧
    ((readTable .strict shadowedDocument 85).run { visited := [85] }).2.table.latest? 5 =
      some (⟨5, 65535⟩, .free 0) := by
  decide +kernel

end Chain

end CrossReference
