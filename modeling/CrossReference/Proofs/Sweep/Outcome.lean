import CrossReference.Proofs.Table.Entries
import CrossReference.Proofs.Token.Extension
import CrossReference.Sweep

set_option autoImplicit false

/-! # What a sweep does

A sweep settles each entry for an object in the document itself on its own: the entry keeps its
offset, gets another one, or is put aside (`settled?`). The entries come in the order of their keys,
and no key comes twice, so no step of the sweep undoes another one. `get?_run` and `excluded_run`
say what is left in the table and what is put aside. -/

namespace CrossReference

/-- What a complaint is about, apart from its wording. -/
def Diagnostic.subject (d : Diagnostic) : DiagnosticKind × Option Nat := (d.kind, d.offset)

namespace Sweep

/-! ## One entry -/

theorem headerAt?_eq_some {file : Bytes} {offset : Nat} {k : Key} :
    headerAt? file offset = some k ↔ ∃ c, Reader.header ⟨offset, file.drop offset⟩ = .ok k c := by
  unfold headerAt? Reader.run?
  dsimp only
  constructor
  · intro h
    rw [Option.ite_none_left_eq_some] at h
    cases hread : Reader.header ⟨offset, file.drop offset⟩ with
    | ok k' c =>
      rw [hread] at h
      exact ⟨c, by rw [← Option.some.inj h.2]⟩
    | error e c =>
      rw [hread] at h
      cases h.2
  · rintro ⟨c, hread⟩
    have hne : file.drop offset ≠ [] := Reader.rest_ne_nil_of_header hread
    have hin : ¬(⟨offset, file.drop offset⟩ : Cursor).isEnd = true := by
      simpa [Cursor.isEnd] using hne
    rw [if_neg hin, hread]
    rfl

variable {file : Bytes} {lastOffset? : Key → Option Nat}

variable (file lastOffset?) in
/-- The offset that an entry has behind a sweep, if it is not put aside. -/
def settled? (entry : Key × Nat) : Option Nat :=
  if headerAt? file entry.2 = some entry.1 then some entry.2 else lastOffset? entry.1

theorem table_check (s : Sweep) (entry : Key × Nat) :
    (check file lastOffset? s entry).table =
      if headerAt? file entry.2 = some entry.1 then s.table
      else
        match lastOffset? entry.1 with
        | some actual => s.table.relocate entry.1 actual
        | none => s.table.remove entry.1 := by
  unfold check fail complain
  dsimp only
  by_cases h : headerAt? file entry.2 = some entry.1
  · rw [if_pos h, if_pos h]
  · rw [if_neg h, if_neg h]
    cases lastOffset? entry.1 <;> rfl

theorem get?_check_self {s : Sweep} {entry : Key × Nat}
    (h : s.table.get? entry.1 = some (.direct entry.2)) :
    (check file lastOffset? s entry).table.get? entry.1 =
      (settled? file lastOffset? entry).map .direct := by
  rw [table_check, settled?]
  split
  · exact h
  · cases lastOffset? entry.1 with
    | some actual => simp [Table.get?_relocate, h]
    | none => simp

theorem get?_check_of_ne {s : Sweep} {entry : Key × Nat} {k : Key} (h : k ≠ entry.1) :
    (check file lastOffset? s entry).table.get? k = s.table.get? k := by
  rw [table_check]
  split
  · rfl
  · cases lastOffset? entry.1 with
    | some actual => simp [Table.get?_relocate, h]
    | none => simp [h]

theorem excluded_check (s : Sweep) (entry : Key × Nat) :
    (check file lastOffset? s entry).excluded =
      s.excluded ++
        if settled? file lastOffset? entry = none then [(entry.1, .direct entry.2)] else [] := by
  unfold check fail complain settled?
  dsimp only
  split
  · simp
  · cases lastOffset? entry.1 <;> simp

/-- A sweep adds nothing to a table, and what it takes away leaves the highest number as it was. -/
theorem highest_check (s : Sweep) (entry : Key × Nat) :
    (check file lastOffset? s entry).table.highest = s.table.highest := by
  rw [table_check]
  split
  · rfl
  · cases lastOffset? entry.1 <;> rfl

/-- The complaint about an entry for an offset at which no header with its key stands. -/
theorem subjects_check (s : Sweep) (entry : Key × Nat) :
    (check file lastOffset? s entry).notes.map Diagnostic.subject =
      s.notes.map Diagnostic.subject ++
        if headerAt? file entry.2 = some entry.1 then [] else [(.offsetMismatch, some entry.2)] := by
  unfold check fail complain
  dsimp only
  split
  · simp
  · cases lastOffset? entry.1 <;> simp [Diagnostic.subject]

/-! ## All entries -/

theorem highest_foldl_check (entries : List (Key × Nat)) (s : Sweep) :
    (entries.foldl (check file lastOffset?) s).table.highest = s.table.highest := by
  induction entries generalizing s with
  | nil => rfl
  | cons e rest ih => rw [List.foldl_cons, ih, highest_check]

theorem subjects_foldl_check (entries : List (Key × Nat)) (s : Sweep) :
    (entries.foldl (check file lastOffset?) s).notes.map Diagnostic.subject =
      s.notes.map Diagnostic.subject ++
        (entries.filter fun e => headerAt? file e.2 ≠ some e.1).map fun e =>
          (.offsetMismatch, some e.2) := by
  induction entries generalizing s with
  | nil => simp
  | cons e rest ih =>
    rw [List.foldl_cons, ih, subjects_check, List.append_assoc]
    congr 1
    by_cases h : headerAt? file e.2 = some e.1 <;> simp [h]

theorem get?_foldl_check_of_ne {entries : List (Key × Nat)} {k : Key} (h : ∀ e ∈ entries, k ≠ e.1)
    (s : Sweep) : (entries.foldl (check file lastOffset?) s).table.get? k = s.table.get? k := by
  induction entries generalizing s with
  | nil => rfl
  | cons e rest ih =>
    obtain ⟨hfirst, hrest⟩ := List.forall_mem_cons.mp h
    rw [List.foldl_cons, ih hrest, get?_check_of_ne hfirst]

/-- Each of several entries with different keys is settled. -/
theorem get?_foldl_check {entries : List (Key × Nat)}
    (distinct : entries.Pairwise fun a b => a.1 < b.1) {s : Sweep}
    (h : ∀ e ∈ entries, s.table.get? e.1 = some (.direct e.2)) :
    ∀ e ∈ entries, (entries.foldl (check file lastOffset?) s).table.get? e.1 =
      (settled? file lastOffset? e).map .direct := by
  induction entries generalizing s with
  | nil => exact nofun
  | cons first rest ih =>
    obtain ⟨habove, hrest⟩ := List.pairwise_cons.mp distinct
    have hother : ∀ e ∈ rest, first.1 ≠ e.1 := fun e he heq =>
      OrderedKey.irrefl _ (heq ▸ habove e he)
    obtain ⟨hfirst, hpresent⟩ := List.forall_mem_cons.mp h
    refine List.forall_mem_cons.mpr ⟨?_, ih hrest fun e he => ?_⟩
    · rw [List.foldl_cons, get?_foldl_check_of_ne hother, get?_check_self hfirst]
    · rw [get?_check_of_ne (hother e he).symm]
      exact hpresent e he

theorem excluded_foldl_check (entries : List (Key × Nat)) (s : Sweep) :
    (entries.foldl (check file lastOffset?) s).excluded =
      s.excluded ++ (entries.filter fun e => settled? file lastOffset? e = none).map fun e =>
        (e.1, Entry.direct e.2) := by
  induction entries generalizing s with
  | nil => simp
  | cons e rest ih =>
    rw [List.foldl_cons, ih, excluded_check, List.append_assoc]
    congr 1
    by_cases h : settled? file lastOffset? e = none <;> simp [h]

/-! ## A whole sweep -/

/-- The offsets that repairs know, if there are to be any. -/
def known? (repair : Bool) (file : Bytes) : Key → Option Nat :=
  (if repair then ScanIndex.scan file else {}).lastOffset?

theorem pairwise_directOffsets (t : Table) : t.directOffsets.Pairwise fun a b => a.1 < b.1 := by
  refine t.entries.ascending.filterMap _ fun a a' hlt b hb b' hb' => ?_
  obtain ⟨_, _, rfl⟩ := Option.map_eq_some_iff.mp hb
  obtain ⟨_, _, rfl⟩ := Option.map_eq_some_iff.mp hb'
  exact hlt

/-- What a sweep leaves for a key: what was there, or the entry as it was settled. -/
theorem get?_run (repair : Bool) (file : Bytes) (t : Table) (k : Key) :
    (run repair file t).table.get? k =
      match t.get? k with
      | some (.direct offset) => (settled? file (known? repair file) (k, offset)).map .direct
      | other => other := by
  have hself : ∀ offset, t.get? k = some (.direct offset) →
      (run repair file t).table.get? k =
        (settled? file (known? repair file) (k, offset)).map .direct := by
    intro offset hget
    exact get?_foldl_check (pairwise_directOffsets t)
      (fun e he => Table.mem_directOffsets.mp he) (k, offset) (Table.mem_directOffsets.mpr hget)
  have hother : (∀ offset, t.get? k ≠ some (.direct offset)) →
      (run repair file t).table.get? k = t.get? k := by
    intro hnot
    refine get?_foldl_check_of_ne (fun e he heq => ?_) { table := t }
    exact hnot e.2 (heq ▸ Table.mem_directOffsets.mp he)
  rcases hget : t.get? k with _ | e
  · rw [hother (by simp [hget]), hget]
  · cases e with
    | direct offset => exact hself offset hget
    | free next => rw [hother (by simp [hget]), hget]
    | compressed stream index => rw [hother (by simp [hget]), hget]

theorem get?_run_eq_direct {repair : Bool} {file : Bytes} {t : Table} {k : Key} {offset : Nat} :
    (run repair file t).table.get? k = some (.direct offset) ↔
      ∃ old, t.get? k = some (.direct old) ∧
        settled? file (known? repair file) (k, old) = some offset := by
  rw [get?_run]
  rcases t.get? k with _ | e
  · simp
  · cases e <;> simp

/-- A sweep does not touch entries for members of object streams. -/
theorem get?_run_eq_compressed {repair : Bool} {file : Bytes} {t : Table} {k : Key}
    {stream index : Nat} :
    (run repair file t).table.get? k = some (.compressed stream index) ↔
      t.get? k = some (.compressed stream index) := by
  rw [get?_run]
  rcases t.get? k with _ | e
  · simp
  · cases e <;> simp

theorem excluded_run (repair : Bool) (file : Bytes) (t : Table) :
    (run repair file t).excluded =
      (t.directOffsets.filter fun e => settled? file (known? repair file) e = none).map fun e =>
        (e.1, Entry.direct e.2) :=
  excluded_foldl_check t.directOffsets { table := t }

theorem mem_excluded_run {repair : Bool} {file : Bytes} {t : Table} {k : Key} {offset : Nat} :
    (k, .direct offset) ∈ (run repair file t).excluded ↔
      t.get? k = some (.direct offset) ∧ settled? file (known? repair file) (k, offset) = none := by
  rw [excluded_run, List.mem_map]
  constructor
  · rintro ⟨e, he, hpair⟩
    obtain ⟨rfl, hoffset⟩ := Prod.mk.inj hpair
    obtain rfl := Entry.direct.inj hoffset
    obtain ⟨hmem, hsettled⟩ := List.mem_filter.mp he
    exact ⟨Table.mem_directOffsets.mp hmem, of_decide_eq_true hsettled⟩
  · rintro ⟨hget, hsettled⟩
    refine ⟨(k, offset), List.mem_filter.mpr ⟨Table.mem_directOffsets.mpr hget, ?_⟩, rfl⟩
    exact decide_eq_true hsettled

end Sweep

end CrossReference
