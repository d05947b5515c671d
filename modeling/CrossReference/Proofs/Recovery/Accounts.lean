import Mathlib.Algebra.Group.Int.Defs
import Mathlib.Data.Finset.Card
import CrossReference.Proofs.Recovery.Finds

set_option autoImplicit false

/-! # What a rebuild reports

A rebuild reports how many objects it came upon, how many members it added, and how many objects it
had to skip; and it reports a catalog and an information dictionary. All this is kept at different
places, while the table grows. What ties it to the table holds at the outset and is kept by whatever
happens at a definition (`Accounted`), so it holds of the whole survey. With that, what a rebuild
answers is consistent with the scan, with itself, and with the trailer from before
(`rebuild_consistent`). -/

namespace CrossReference

/-- Whether an entry is for a member of an object stream. -/
def Entry.isCompressed : Entry → Bool
  | compressed _ _ => true
  | _ => false

/-- The headers that are kept are as many as there are keys. -/
theorem ScanIndex.card_keys (index : ScanIndex) :
    (index.objects.map (·.1)).toFinset.card = index.lastOffsets.length := by
  have hdistinct : (index.lastOffsets.map (·.1)).Nodup :=
    List.pairwise_map.mpr (distinct_lastOffsets index)
  have hkeys : (index.objects.map (·.1)).toFinset = (index.lastOffsets.map (·.1)).toFinset := by
    ext k
    simp only [List.mem_toFinset, List.mem_map, Prod.exists, exists_and_right, exists_eq_right]
    constructor
    · rintro ⟨offset, h⟩
      exact exists_mem_withoutRepeats h
    · rintro ⟨offset, h⟩
      exact ⟨offset, (withoutRepeats_sublist _).subset h⟩
  rw [hkeys, List.toFinset_card_of_nodup hdistinct, List.length_map]

/-- In a table with entries from which nothing was taken, some key has the highest number. -/
theorem Table.Tight.exists_highestNumber {t : Table} (tight : t.Tight) {k : Key}
    (h : t.contains k = true) :
    (∃ j, t.contains j = true ∧ j.number = t.highestNumber) ∧
      ∀ j, t.contains j = true → j.number ≤ t.highestNumber := by
  obtain ⟨n, hn, _⟩ := tight.bound k h
  unfold highestNumber
  rw [hn, Option.getD_some]
  refine ⟨tight.attained n hn, fun j hj => ?_⟩
  obtain ⟨n', hn', hle⟩ := tight.bound j hj
  rwa [← Option.some.inj (hn'.symm.trans hn)]

namespace Recovery

/-! ## The accounts -/

/-- How the figures of a rebuild stand when it has visited so many definitions. -/
structure Accounted (index : ScanIndex) (visited : Nat) (r : Recovery) : Prop where
  found : r.stats.objectsFound = index.objects.length
  headers : ∀ e ∈ index.lastOffsets, r.table.contains e.1 = true
  size : r.table.size = index.lastOffsets.length + r.stats.compressedEntries
  compressed : r.stats.compressedEntries = r.table.toList.countP (·.2.isCompressed)
  /-- A definition is skipped at most once, and so is a member that has an entry. -/
  skipped : r.stats.objectsSkipped ≤ visited + r.stats.compressedEntries
  root : ∀ k, r.stats.root = some k → r.table.contains k = true
  info : ∀ k, r.stats.info = some k → r.table.contains k = true

/-- A look at an object changes nothing, or it notes a catalog, or an information dictionary. -/
theorem classify_cases (stats : RecoveryStats) (k : Key) (x : Object) :
    classify stats k x = stats ∨ classify stats k x = { stats with root := some k } ∨
      classify stats k x = { stats with info := some k } := by
  unfold classify
  split
  · exact Or.inl rfl
  · split
    · exact Or.inr (Or.inl rfl)
    · split
      · exact Or.inr (Or.inr rfl)
      · exact Or.inl rfl

namespace Accounted

variable {index : ScanIndex} {visited : Nat} {r : Recovery} {k : Key} {tolerance : Tolerance}
  {openStreams : Bool} {file : Bytes}

theorem complain (h : Accounted index visited r) (offset : Option Nat) (message : String) :
    Accounted index visited (r.complain offset message) :=
  ⟨h.found, h.headers, h.size, h.compressed, h.skipped, h.root, h.info⟩

/-- An object is skipped on account of a visit, or of an entry that was added. -/
theorem skip (h : Accounted index visited r)
    (room : r.stats.objectsSkipped < visited + r.stats.compressedEntries) (offset : Option Nat)
    (message : String) : Accounted index visited (r.skip offset message) :=
  ⟨h.found, h.headers, h.size, h.compressed, room, h.root, h.info⟩

theorem classify (h : Accounted index visited r) (hk : r.table.contains k = true) (x : Object) :
    Accounted index visited { r with stats := Recovery.classify r.stats k x } := by
  rcases classify_cases r.stats k x with hsame | hroot | hinfo
  · rw [hsame]
    exact h
  · rw [hroot]
    exact { h with root := fun j hj => Option.some.inj hj ▸ hk }
  · rw [hinfo]
    exact { h with info := fun j hj => Option.some.inj hj ▸ hk }

/-- A member gets an entry. -/
theorem add (h : Accounted index visited r) (fresh : r.table.get? k = none) (stream i : Nat) :
    Accounted index visited
      { r with
        table := r.table.add k (.compressed stream i)
        stats := { r.stats with compressedEntries := r.stats.compressedEntries + 1 } } := by
  have hperm := Table.perm_add fresh (.compressed stream i)
  have hgrows : ∀ j, r.table.contains j = true →
      (r.table.add k (.compressed stream i)).contains j = true := fun j hj =>
    (Table.isSome_get?_add ..).trans (Bool.or_eq_true_iff.mpr (Or.inl hj))
  exact
    { found := h.found
      headers := fun e he => hgrows e.1 (h.headers e he)
      size := hperm.length_eq.trans (congrArg (· + 1) h.size)
      compressed := by
        rw [hperm.countP_eq, List.countP_cons_of_pos rfl, ← h.compressed]
      skipped := Nat.le_succ_of_le h.skipped
      root := fun j hj => hgrows j (h.root j hj)
      info := fun j hj => hgrows j (h.info j hj) }

theorem addMember (h : Accounted index visited r) (s : ObjectStream) (member : Nat × Nat) :
    Accounted index visited (Recovery.addMember tolerance k s r member) := by
  obtain ⟨number, i⟩ := member
  unfold Recovery.addMember
  dsimp only
  split
  · exact h
  · rename_i hfree
    have fresh : r.table.get? ⟨number, 0⟩ = none := by
      rw [Bool.or_eq_true, not_or] at hfree
      exact Option.not_isSome_iff_eq_none.mp hfree.2
    have hadded := h.add fresh k.number i
    -- the new entry makes room for its object to be skipped
    cases s.object tolerance i with
    | ok x => exact hadded.classify ((Table.isSome_get?_add ..).trans (by simp)) x
    | error e => exact hadded.skip (Nat.lt_succ_of_le h.skipped) none _

theorem foldl_addMember (s : ObjectStream) (members : List (Nat × Nat))
    (h : Accounted index visited r) :
    Accounted index visited (members.foldl (Recovery.addMember tolerance k s) r) := by
  induction members generalizing r with
  | nil => exact h
  | cons member rest ih => exact ih (h.addMember s member)

theorem addMembers (h : Accounted index visited r) (entries : Dict Object) (data : Bytes) :
    Accounted index visited (r.addMembers tolerance k entries data) := by
  unfold Recovery.addMembers
  cases ObjectStream.ofStream tolerance entries data with
  | error e => exact h.complain none _
  | ok s => exact foldl_addMember s _ h

theorem examine (h : Accounted index visited r) (hk : r.table.contains k = true) (x : Object) :
    Accounted index visited (r.examine tolerance openStreams k x) := by
  have hclassified := h.classify hk x
  unfold Recovery.examine
  cases x with
  | stream entries data =>
    dsimp only
    split
    · exact hclassified.addMembers entries data
    · exact hclassified
  | _ => exact hclassified

/-- A visit makes room for one object that is skipped. -/
theorem visit (h : Accounted index visited r) {located : Key × Nat}
    (hlocated : located ∈ index.lastOffsets) :
    Accounted index (visited + 1) (Recovery.visit tolerance openStreams file r located) := by
  have room : r.stats.objectsSkipped < visited + 1 + r.stats.compressedEntries := by
    have := h.skipped
    omega
  have hnext : Accounted index (visited + 1) r := { h with skipped := Nat.le_of_lt room }
  unfold Recovery.visit
  dsimp only
  cases Object.readDefinition tolerance ⟨located.2, file.drop located.2⟩ with
  | error e c => exact hnext.skip room _ _
  | ok found c =>
    obtain ⟨key, x⟩ := found
    dsimp only
    split
    · exact hnext.examine (h.headers located hlocated) x
    · exact hnext.skip room _ _

theorem foldl_visit {located : List (Key × Nat)} (hlocated : located ⊆ index.lastOffsets)
    (h : Accounted index visited r) :
    Accounted index (visited + located.length)
      (located.foldl (Recovery.visit tolerance openStreams file) r) := by
  induction located generalizing visited r with
  | nil => exact h
  | cons first rest ih =>
    obtain ⟨hfirst, hrest⟩ := List.cons_subset.mp hlocated
    rw [List.length_cons, Nat.add_comm rest.length, ← Nat.add_assoc]
    exact ih hrest (h.visit hfirst)

/-- The accounts at the outset, with the headers in the table and nothing visited. -/
theorem headerEntries (index : ScanIndex) :
    Accounted index 0
      { table := .ofList (Recovery.headerEntries index)
        stats := { objectsFound := index.objects.length } } := by
  have hperm := Table.perm_ofList (distinct_headerEntries index)
  exact
    { found := rfl
      headers := fun e he => by
        have hmem := hperm.mem_iff.mpr (List.mem_map_of_mem he)
        exact Option.isSome_of_eq_some (Table.mem_toList.mp hmem)
      size := hperm.length_eq.trans (List.length_map _)
      compressed := by
        rw [hperm.countP_eq, eq_comm, List.countP_eq_zero]
        intro e he
        obtain ⟨located, _, rfl⟩ := List.mem_map.mp he
        exact Bool.false_ne_true
      skipped := Nat.zero_le _
      root := nofun
      info := nofun }

theorem survey (options : Options) (file : Bytes) (index : ScanIndex) :
    Accounted index index.lastOffsets.length (Recovery.survey options file index) := by
  have hall : Accounted index (0 + index.lastOffsets.length)
      (index.lastOffsets.foldl
        (Recovery.visit options.toTolerance options.rebuildStreams file) _) :=
    foldl_visit (List.Subset.refl _) (Accounted.headerEntries index)
  rw [Nat.zero_add] at hall
  exact ⟨hall.found, hall.headers, hall.size, hall.compressed, hall.skipped, hall.root, hall.info⟩

end Accounted

/-! ## The answer -/

/-- A rebuild and the trailer behind it agree with the scan, with each other, and with the trailer
    from before. -/
structure Consistent (index : ScanIndex) (t : Trailer) (r : Recovery) (t' : Trailer) : Prop where
  root_mem : ∀ k, r.stats.root = some k → r.table.contains k = true
  info_mem : ∀ k, r.stats.info = some k → r.table.contains k = true
  root : t'.get? "Root" = (r.stats.root.map .reference).or (t.get? "Root")
  info : t'.get? "Info" = (r.stats.info.map .reference).or (t.get? "Info")
  size : ∃ n : Nat, (∃ k, r.table.contains k = true ∧ k.number = n) ∧
    (∀ k, r.table.contains k = true → k.number ≤ n) ∧
    t'.get? "Size" = some (.integer (min (n + 1) (2 ^ 63 - 1)))
  others : ∀ n : Name, n ≠ "Root" → n ≠ "Info" → n ≠ "Size" → t'.get? n = t.get? n
  offsets : t'.offsets = t.offsets
  reconstructed : r.stats.entriesReconstructed = r.table.size
  /-- There is an entry for each key that was scanned, and one for each member that was added. -/
  counted : r.stats.entriesReconstructed =
    (index.objects.map (·.1)).toFinset.card + r.stats.compressedEntries
  compressed : r.stats.compressedEntries = r.table.toList.countP (·.2.isCompressed)
  found : r.stats.objectsFound = index.objects.length
  skipped : r.stats.objectsSkipped ≤ r.stats.entriesReconstructed

variable (options : Options) (file : Bytes)

theorem consistent_survey {index : ScanIndex} (h : index.isEmpty = false) (t : Trailer) :
    Consistent index t (survey options file index)
      ((survey options file index).updateTrailer t) := by
  have haccounts := Accounted.survey options file index
  have htight : (survey options file index).table.Tight := by
    rw [table_survey]
    exact Table.tight_ofList _
  -- there is an object, so there is a key in the table
  obtain ⟨⟨k, offset⟩, hobject⟩ := List.exists_mem_of_ne_nil index.objects
    (List.isEmpty_eq_false_iff.mp h)
  obtain ⟨last, hlast⟩ := ScanIndex.exists_mem_withoutRepeats hobject
  obtain ⟨hattained, hbound⟩ := htight.exists_highestNumber (haccounts.headers _ hlast)
  have hcounted : (survey options file index).stats.entriesReconstructed =
      index.lastOffsets.length + (survey options file index).stats.compressedEntries :=
    haccounts.size
  have hinfo : Name.ofString "Info" ≠ "Size" := by decide
  have hroot : Name.ofString "Root" ≠ "Size" ∧ Name.ofString "Root" ≠ "Info" := by decide
  exact
    { root_mem := haccounts.root
      info_mem := haccounts.info
      root := by rw [get?_updateTrailer, if_neg hroot.1, if_neg hroot.2, if_pos rfl]
      info := by rw [get?_updateTrailer, if_neg hinfo, if_pos rfl]
      size := ⟨_, hattained, hbound, by rw [get?_updateTrailer, if_pos rfl]; rfl⟩
      others := fun n hroot hinfo hsize => by
        rw [get?_updateTrailer, if_neg hsize, if_neg hinfo, if_neg hroot]
      offsets := offsets_updateTrailer _ t
      reconstructed := rfl
      counted := by rw [hcounted, ScanIndex.card_keys]
      compressed := haccounts.compressed
      found := haccounts.found
      skipped := haccounts.skipped.trans_eq hcounted.symm }

/-- A rebuild fails for want of objects only, and then the trailer stays as it was. Otherwise the
    catalog and the information dictionary that it reports have entries in its table, the trailer
    leads to them and knows the greatest number of the table, and the figures are those of the scan
    and of the table. -/
theorem rebuild_consistent (index : ScanIndex) (t : Trailer) :
    match rebuild options file index t with
    | .ok r t' => index.objects ≠ [] ∧ Consistent index t r t'
    | .error e t' => index.objects = [] ∧ e = .nothingFound file.length ∧ t' = t := by
  cases h : index.isEmpty with
  | true =>
    rw [rebuild_of_isEmpty h]
    exact ⟨List.isEmpty_iff.mp h, rfl, rfl⟩
  | false =>
    rw [rebuild_of_not_isEmpty h]
    exact ⟨List.isEmpty_eq_false_iff.mp h, consistent_survey options file h t⟩

end Recovery

end CrossReference
