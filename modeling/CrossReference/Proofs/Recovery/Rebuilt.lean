import CrossReference.Proofs.Recovery.Finds
import CrossReference.Proofs.Scan.Headers

set_option autoImplicit false

/-! # What a rebuilt table contains

A rebuilt table has an entry for the last marker with each key and, as far as keys are left, for the
members of the object streams among the definitions there, and nothing else (`Rebuilt`). Several
object streams may list one number; since they are opened in the order of the document and entries
stay, the first of them counts (`firstListing_run`). -/

namespace CrossReference

namespace Recovery

open ScanIndex (Marker LastMarker)

variable {options : Options} {file : Bytes} {index : ScanIndex} {t : Trailer}
  {rebuilt : Recovery × Trailer} {k : Key}

/-! ## Entries by look-up -/

theorem get?_run (h : run options file index t = .ok rebuilt) (k : Key) :
    rebuilt.1.table.get? k =
      (OrderedMap.lookup k (headerEntries index)).or
        (OrderedMap.lookup k (foundEntries options file index)) := by
  rw [table_run h, Table.get?_ofList, OrderedMap.lookup_append]

theorem lookup_headerEntries {offset : Nat} :
    OrderedMap.lookup k (headerEntries index) = some (.direct offset) ↔
      (k, offset) ∈ index.lastOffsets := by
  rw [OrderedMap.lookup_eq_some_iff_of_distinct (distinct_headerEntries index), headerEntries,
    List.mem_map]
  constructor
  · rintro ⟨e, he, hpair⟩
    obtain ⟨rfl, hoffset⟩ := Prod.mk.inj hpair
    obtain rfl := Entry.direct.inj hoffset
    exact he
  · intro h
    exact ⟨(k, offset), h, rfl⟩

theorem direct_of_lookup_headerEntries {e : Entry}
    (h : OrderedMap.lookup k (headerEntries index) = some e) : ∃ offset, e = .direct offset := by
  obtain ⟨located, _, hpair⟩ := List.mem_map.mp (OrderedMap.mem_of_lookup h)
  exact ⟨located.2, (Prod.mk.inj hpair).2.symm⟩

/-- What a visit finds for a key is a member of the object stream there. -/
theorem lookup_finds {located : Key × Nat} {e : Entry}
    (h : OrderedMap.lookup k
      (finds options.toTolerance options.rebuildStreams file located) = some e) :
    options.rebuildStreams = true ∧
      ∃ s, streamAt? options.toTolerance file located.2 = some (located.1, s) ∧
        OrderedMap.lookup k (memberEntries located.1.number s) = some e := by
  obtain ⟨hopen, s, hs, _⟩ := mem_finds.mp (OrderedMap.mem_of_lookup h)
  rw [hopen, finds_of_streamAt? hs] at h
  exact ⟨hopen, s, hs, h⟩

theorem compressed_of_lookup_foundEntries {e : Entry}
    (h : OrderedMap.lookup k (foundEntries options file index) = some e) :
    ∃ stream i, e = .compressed stream i := by
  rw [foundEntries, OrderedMap.lookup_flatMap] at h
  obtain ⟨located, _, hfound⟩ := List.exists_of_findSome?_eq_some h
  obtain ⟨_, s, _, hs⟩ := lookup_finds hfound
  obtain ⟨_, i, _, _, he⟩ := mem_memberEntries.mp (OrderedMap.mem_of_lookup hs)
  exact ⟨_, i, he⟩

theorem get?_direct_iff (h : run options file index t = .ok rebuilt) {offset : Nat} :
    rebuilt.1.table.get? k = some (.direct offset) ↔ (k, offset) ∈ index.lastOffsets := by
  rw [get?_run h, ← lookup_headerEntries, Option.or_eq_some_iff]
  constructor
  · rintro (hheader | ⟨_, hmember⟩)
    · exact hheader
    · obtain ⟨stream, i, he⟩ := compressed_of_lookup_foundEntries hmember
      cases he
  · exact Or.inl

/-- A rebuild takes the offsets of objects from the scan. -/
theorem mem_objects_of_run (h : run options file index t = .ok rebuilt) {offset : Nat}
    (hk : rebuilt.1.table.get? k = some (.direct offset)) : (k, offset) ∈ index.objects :=
  (ScanIndex.withoutRepeats_sublist _).subset ((get?_direct_iff h).mp hk)

/-- An entry without an offset was found, and there is no header with its key. -/
theorem lookup_foundEntries_of_get? (h : run options file index t = .ok rebuilt) {e : Entry}
    (hk : rebuilt.1.table.get? k = some e) (hnot : ∀ offset, e ≠ .direct offset) :
    (∀ offset, (k, offset) ∉ index.lastOffsets) ∧
      OrderedMap.lookup k (foundEntries options file index) = some e := by
  constructor
  · intro offset hmem
    rw [(get?_direct_iff h).mpr hmem] at hk
    exact hnot offset (Option.some.inj hk).symm
  · rw [get?_run h, Option.or_eq_some_iff] at hk
    rcases hk with hheader | ⟨_, hfound⟩
    · obtain ⟨offset, he⟩ := direct_of_lookup_headerEntries hheader
      exact absurd he (hnot offset)
    · exact hfound

/-! ## Object streams that list a number -/

/-- An object stream that is read at a marker has the key of the marker. -/
theorem key_of_streamAt? {tolerance : Tolerance} {offset : Nat} (h : Marker file k offset)
    {key : Key} {s : ObjectStream} (hs : streamAt? tolerance file offset = some (key, s)) :
    key = k := by
  unfold streamAt? at hs
  cases hread : Object.readDefinition tolerance ⟨offset, file.drop offset⟩ with
  | error e c =>
    rw [hread] at hs
    cases hs
  | ok found c =>
    rw [hread] at hs
    obtain ⟨s', _, hpair⟩ := Option.map_eq_some_iff.mp hs
    rw [← (Prod.mk.inj hpair).1]
    exact h.key_eq hread

/-- Of the object streams among the definitions in a table, the first one in the document that lists
    a number, with the first index at which it does. -/
structure FirstListing (options : Options) (file : Bytes) (t : Table) (number : Nat) (key : Key)
    (offset i : Nat) : Prop where
  defined : t.get? key = some (.direct offset)
  lists : ∃ s, streamAt? options.toTolerance file offset = some (key, s) ∧
    s.numbers[i]? = some number ∧ ∀ j, s.numbers[j]? = some number → i ≤ j
  first : ∀ key' offset', t.get? key' = some (.direct offset') →
    ∀ key'' s, streamAt? options.toTolerance file offset' = some (key'', s) →
      ∀ j, s.numbers[j]? = some number → j ≤ Decimal.maxWord32 → offset ≤ offset'

/-- A member that is listed has an entry among those that the visit to its object stream finds. -/
theorem exists_lookup_finds (hopen : options.rebuildStreams = true) {key : Key} {offset : Nat}
    (hmarker : Marker file key offset) {key' : Key} {s : ObjectStream}
    (hs : streamAt? options.toTolerance file offset = some (key', s)) {i : Nat}
    (hgeneration : k.generation = 0) (hnumber : s.numbers[i]? = some k.number)
    (hi : i ≤ Decimal.maxWord32) :
    ∃ e, OrderedMap.lookup k
      (finds options.toTolerance options.rebuildStreams file (key, offset)) = some e := by
  obtain rfl := key_of_streamAt? hmarker hs
  have hentry : (k, Entry.compressed key'.number i) ∈ memberEntries key'.number s :=
    mem_memberEntries.mpr ⟨hgeneration, i, hi, hnumber, rfl⟩
  exact OrderedMap.exists_lookup (mem_finds.mpr ⟨hopen, s, hs, hentry⟩)

/-- An entry for a member leads to the first object stream that lists its number. -/
theorem firstListing_run (h : run options file (.scan file) t = .ok rebuilt) {stream i : Nat}
    (hk : rebuilt.1.table.get? k = some (.compressed stream i)) :
    k.generation = 0 ∧ ∃ key offset, key.number = stream ∧
      FirstListing options file rebuilt.1.table k.number key offset i := by
  obtain ⟨_, hmember⟩ := lookup_foundEntries_of_get? h hk nofun
  rw [foundEntries, OrderedMap.lookup_flatMap] at hmember
  obtain ⟨before, located, after, hsplit, hfound, hbefore⟩ :=
    List.findSome?_eq_some_iff.mp hmember
  obtain ⟨hopen, s, hs, hlookup⟩ := lookup_finds hfound
  obtain ⟨hgeneration, i', hi, hnumber, he⟩ :=
    mem_memberEntries.mp (OrderedMap.mem_of_lookup hlookup)
  obtain ⟨rfl, rfl⟩ := Entry.compressed.inj he
  have hlocated : located ∈ (ScanIndex.scan file).lastOffsets := by
    rw [hsplit]
    exact List.mem_append_right _ List.mem_cons_self
  refine ⟨hgeneration, located.1, located.2, rfl, (get?_direct_iff h).mpr hlocated,
    ⟨s, hs, hnumber, fun j hj => le_of_lookup_memberEntries hlookup hj⟩, ?_⟩
  intro key' offset' hkey' key'' s' hs' j hj hjmax
  have hlocated' := (get?_direct_iff h).mp hkey'
  have hmarker := (ScanIndex.mem_lastOffsets_scan.mp hlocated').marker
  obtain ⟨e, he⟩ := exists_lookup_finds hopen hmarker hs' hgeneration hj hjmax
  have hordered := ScanIndex.pairwise_lastOffsets_scan file
  rw [hsplit] at hlocated' hordered
  rcases List.mem_append.mp hlocated' with hin | hin
  · -- nothing was found before
    rw [hbefore _ hin] at he
    cases he
  · rcases List.mem_cons.mp hin with rfl | hin
    · exact Nat.le_refl _
    · exact Nat.le_of_lt ((List.pairwise_cons.mp (List.pairwise_append.mp hordered).2.1).1 _ hin)

/-! ## The content of the table -/

/-- What a table contains that was rebuilt from a document. -/
structure Rebuilt (options : Options) (file : Bytes) (t : Table) : Prop where
  /-- The keys of entries with offsets are those of the markers. -/
  direct : ∀ k, (∃ offset, t.get? k = some (.direct offset)) ↔ ∃ offset, Marker file k offset
  /-- Each of these offsets is the one of the last marker. -/
  last : ∀ k offset, t.get? k = some (.direct offset) → LastMarker file k offset
  no_free : ∀ k next, t.get? k ≠ some (.free next)
  /-- Other entries are for keys that no marker has, and lead to an object stream among the
      definitions in the table that lists the number at the index. -/
  member : ∀ k stream i, t.get? k = some (.compressed stream i) →
    k.generation = 0 ∧ (∀ offset, ¬Marker file k offset) ∧
      ∃ key offset s, key.number = stream ∧ t.get? key = some (.direct offset) ∧
        streamAt? options.toTolerance file offset = some (key, s) ∧
        s.numbers[i]? = some k.number
  /-- If object streams are looked into, no member is left out that an index can reach. -/
  complete : options.rebuildStreams = true →
    ∀ key offset, t.get? key = some (.direct offset) →
      ∀ key' s, streamAt? options.toTolerance file offset = some (key', s) →
        ∀ i number, s.numbers[i]? = some number → i ≤ Decimal.maxWord32 →
          (t.get? ⟨number, 0⟩).isSome

theorem rebuilt_run (h : run options file (.scan file) t = .ok rebuilt) :
    Rebuilt options file rebuilt.1.table where
  direct k := by
    simp only [get?_direct_iff h, ScanIndex.mem_lastOffsets_scan]
    constructor
    · rintro ⟨offset, hlast⟩
      exact ⟨offset, hlast.marker⟩
    · rintro ⟨offset, hmarker⟩
      exact ScanIndex.exists_lastMarker hmarker
  last k offset hk := ScanIndex.mem_lastOffsets_scan.mp ((get?_direct_iff h).mp hk)
  no_free k next hk := by
    obtain ⟨_, hfound⟩ := lookup_foundEntries_of_get? h hk nofun
    obtain ⟨stream, i, he⟩ := compressed_of_lookup_foundEntries hfound
    cases he
  member k stream i hk := by
    obtain ⟨hnone, _⟩ := lookup_foundEntries_of_get? h hk nofun
    obtain ⟨hgeneration, key, offset, hstream, hfirst⟩ := firstListing_run h hk
    obtain ⟨s, hs, hnumber, _⟩ := hfirst.lists
    refine ⟨hgeneration, fun offset' hmarker => ?_, key, offset, s, hstream, hfirst.defined, hs,
      hnumber⟩
    obtain ⟨last, hlast⟩ := ScanIndex.exists_lastMarker hmarker
    exact hnone last (ScanIndex.mem_lastOffsets_scan.mpr hlast)
  complete hopen key offset hkey key' s hs i number hnumber hi := by
    have hlocated := (get?_direct_iff h).mp hkey
    have hmarker := (ScanIndex.mem_lastOffsets_scan.mp hlocated).marker
    obtain ⟨e, he⟩ := exists_lookup_finds (k := ⟨number, 0⟩) hopen hmarker hs rfl hnumber hi
    obtain ⟨e', he'⟩ : ∃ e', OrderedMap.lookup ⟨number, 0⟩
        (foundEntries options file (ScanIndex.scan file)) = some e' :=
      OrderedMap.exists_lookup
        (List.mem_flatMap.mpr ⟨_, hlocated, OrderedMap.mem_of_lookup he⟩)
    rw [get?_run h, Option.isSome_or, he', Option.isSome_some, Bool.or_true]

end Recovery

end CrossReference
