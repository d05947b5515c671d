import CrossReference.Proofs.Scan.Headers
import CrossReference.Proofs.Scan.Order
import CrossReference.Proofs.Sweep.Outcome

set_option autoImplicit false

/-! # How a sweep settles its entries

`Settles` says what a sweep has to make of a table in terms of the document alone: which headers can
be read at which offsets (`Located`), and where the last header with a key stands on a line of its
own (`ScanIndex.LastMarker`). An entry that is located stays. One that is not is moved to the last
header with its key, if repairs are wanted and there is one, and put aside otherwise. Nothing else
changes. `run_settles` says that every sweep does this, and each judgement is on the entry as it was
in the table before the sweep. -/

namespace CrossReference

namespace Sweep

variable {repair : Bool} {file : Bytes} {t : Table} {k : Key} {offset : Nat}

/-! ## Judgements on one entry -/

theorem headerAt?_eq_some_iff_located : headerAt? file offset = some k ↔ Located file k offset := by
  rw [headerAt?_eq_some]
  refine ⟨fun ⟨c, hread⟩ => ⟨?_, c, hread⟩, fun h => h.2⟩
  have hne := Reader.rest_ne_nil_of_header hread
  rw [ne_eq, List.drop_eq_nil_iff] at hne
  exact Nat.lt_of_not_le hne

instance : Decidable (Located file k offset) :=
  decidable_of_iff _ headerAt?_eq_some_iff_located

theorem known?_eq_some :
    known? repair file k = some offset ↔ repair = true ∧ ScanIndex.LastMarker file k offset := by
  unfold known?
  cases repair with
  | false => simp [ScanIndex.lastOffset?]
  | true => simp [ScanIndex.lastOffset?_scan_eq_some]

/-- No offset is known for a key exactly if no repairs are wanted or no header has the key. -/
theorem known?_eq_none :
    known? repair file k = none ↔ (repair = true → ∀ p, ¬ScanIndex.Marker file k p) := by
  rw [Option.eq_none_iff_forall_ne_some]
  simp only [ne_eq, known?_eq_some, not_and]
  constructor
  · intro h hrepair p hmarker
    obtain ⟨last, hlast⟩ := ScanIndex.exists_lastMarker hmarker
    exact h last hrepair hlast
  · exact fun h last hrepair hlast => h hrepair last hlast.marker

theorem settled?_eq (lastOffset? : Key → Option Nat) :
    settled? file lastOffset? (k, offset) =
      if Located file k offset then some offset else lastOffset? k :=
  ite_congr (propext headerAt?_eq_some_iff_located) (fun _ => rfl) fun _ => rfl

theorem settled?_eq_some {old : Nat} :
    settled? file (known? repair file) (k, old) = some offset ↔
      (Located file k old ∧ old = offset) ∨
        (¬Located file k old ∧ repair = true ∧ ScanIndex.LastMarker file k offset) := by
  rw [settled?_eq, ← known?_eq_some]
  by_cases hlocated : Located file k old <;> simp [hlocated]

theorem settled?_eq_none :
    settled? file (known? repair file) (k, offset) = none ↔
      ¬Located file k offset ∧ (repair = true → ∀ p, ¬ScanIndex.Marker file k p) := by
  rw [settled?_eq, ← known?_eq_none]
  by_cases hlocated : Located file k offset <;> simp [hlocated]

/-! ## The whole sweep -/

/-- What a sweep makes of a table. -/
structure Settles (repair : Bool) (file : Bytes) (t : Table) (s : Sweep) : Prop where
  /-- An entry with an offset is one that was located, or one that was not and could be moved to the
      last header with its key. -/
  direct : ∀ k offset, s.table.get? k = some (.direct offset) ↔
    (t.get? k = some (.direct offset) ∧ Located file k offset) ∨
      ∃ old, t.get? k = some (.direct old) ∧ ¬Located file k old ∧
        repair = true ∧ ScanIndex.LastMarker file k offset
  /-- Free entries and those for members of object streams are as they were. -/
  other : ∀ k e, e.offset? = none → (s.table.get? k = some e ↔ t.get? k = some e)
  highest : s.table.highest = t.highest
  /-- Put aside are the entries that were not located and could not be moved, as they were. -/
  excluded : ∀ k e, (k, e) ∈ s.excluded ↔
    ∃ offset, e = .direct offset ∧ t.get? k = some e ∧ ¬Located file k offset ∧
      (repair = true → ∀ p, ¬ScanIndex.Marker file k p)
  ascending : s.excluded.Pairwise fun a b => a.1 < b.1
  /-- There is one complaint for each entry that was not located, in the order of the keys. -/
  subjects : s.notes.map Diagnostic.subject =
    (t.directOffsets.filter fun e => ¬Located file e.1 e.2).map fun e =>
      (.offsetMismatch, some e.2)

theorem pairwise_excluded_run (repair : Bool) (file : Bytes) (t : Table) :
    (run repair file t).excluded.Pairwise fun a b => a.1 < b.1 := by
  rw [excluded_run, List.pairwise_map]
  exact (pairwise_directOffsets t).sublist List.filter_sublist

theorem subjects_run (repair : Bool) (file : Bytes) (t : Table) :
    (run repair file t).notes.map Diagnostic.subject =
      (t.directOffsets.filter fun e => ¬Located file e.1 e.2).map fun e =>
        (.offsetMismatch, some e.2) := by
  refine (subjects_foldl_check t.directOffsets { table := t }).trans ?_
  simp only [List.map_nil, List.nil_append, ne_eq, headerAt?_eq_some_iff_located]

theorem mem_excluded_run_iff {e : Entry} :
    (k, e) ∈ (run repair file t).excluded ↔
      ∃ offset, e = .direct offset ∧ t.get? k = some e ∧
        settled? file (known? repair file) (k, offset) = none := by
  constructor
  · intro hmem
    obtain ⟨⟨k', offset⟩, -, heq⟩ : ∃ x ∈ t.directOffsets.filter _, (x.1, Entry.direct x.2) = (k, e) :=
      List.mem_map.mp (excluded_run repair file t ▸ hmem)
    cases heq
    exact ⟨offset, rfl, mem_excluded_run.mp hmem⟩
  · rintro ⟨offset, rfl, h⟩
    exact mem_excluded_run.mpr h

/-- A sweep settles the entries of a table, whatever the table and the document are. -/
theorem run_settles (repair : Bool) (file : Bytes) (t : Table) :
    Settles repair file t (run repair file t) where
  direct k offset := by
    rw [get?_run_eq_direct]
    simp only [settled?_eq_some]
    constructor
    · rintro ⟨old, hold, ⟨hlocated, rfl⟩ | hmoved⟩
      · exact Or.inl ⟨hold, hlocated⟩
      · exact Or.inr ⟨old, hold, hmoved⟩
    · rintro (⟨hold, hlocated⟩ | ⟨old, hold, hmoved⟩)
      · exact ⟨offset, hold, Or.inl ⟨hlocated, rfl⟩⟩
      · exact ⟨old, hold, Or.inr hmoved⟩
  other k e he := by
    rw [get?_run]
    rcases t.get? k with _ | old
    · exact Iff.rfl
    · cases old with
      | direct offset =>
        constructor
        · intro h
          obtain ⟨_, _, rfl⟩ := Option.map_eq_some_iff.mp h
          cases he
        · intro h
          obtain rfl := Option.some.inj h
          cases he
      | free next => exact Iff.rfl
      | compressed stream index => exact Iff.rfl
  highest := highest_foldl_check t.directOffsets { table := t }
  excluded k e := by
    rw [mem_excluded_run_iff]
    simp only [settled?_eq_none]
  ascending := pairwise_excluded_run repair file t
  subjects := subjects_run repair file t

end Sweep

end CrossReference
