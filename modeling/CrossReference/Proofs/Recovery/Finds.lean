import CrossReference.Proofs.Scan.Order
import CrossReference.Proofs.Table.Entries
import CrossReference.Recovery

set_option autoImplicit false

/-! # The table of a rebuild

A rebuild adds entries to its table at one place only, where it goes through the members of an
object stream, and an entry stays as it was added. So the table is that of a list of entries: those
for the headers, and behind them those for the members of each object stream in turn (`finds`).
`table_run` says so, and what the table has for a key is what a look-up in the list finds. -/

namespace CrossReference

theorem Table.addAll_append (t : Table) (xs ys : List (Key × Entry)) :
    t.addAll (xs ++ ys) = (t.addAll xs).addAll ys := List.foldl_append

namespace Recovery

/-! ## Members -/

/-- The entry for the member at an index of an object stream, if it can have one. -/
def entryOf? (stream : Nat) (member : Nat × Nat) : Option (Key × Entry) :=
  if Decimal.maxWord32 < member.2 then none
  else some (⟨member.1, 0⟩, .compressed stream member.2)

/-- The entries for the members of an object stream, in order. -/
def memberEntries (stream : Nat) (s : ObjectStream) : List (Key × Entry) :=
  s.numbers.zipIdx.filterMap (entryOf? stream)

theorem entryOf?_eq_some {stream : Nat} {member : Nat × Nat} {k : Key} {e : Entry} :
    entryOf? stream member = some (k, e) ↔
      member.2 ≤ Decimal.maxWord32 ∧ k = ⟨member.1, 0⟩ ∧ e = .compressed stream member.2 := by
  unfold entryOf?
  rw [Option.ite_none_left_eq_some, Nat.not_lt, Option.some.injEq, Prod.mk.injEq]
  simp only [eq_comm]

theorem mem_memberEntries {stream : Nat} {s : ObjectStream} {k : Key} {e : Entry} :
    (k, e) ∈ memberEntries stream s ↔
      k.generation = 0 ∧ ∃ index, index ≤ Decimal.maxWord32 ∧
        s.numbers[index]? = some k.number ∧ e = .compressed stream index := by
  unfold memberEntries
  rw [List.mem_filterMap]
  constructor
  · rintro ⟨⟨number, index⟩, hmem, hentry⟩
    obtain ⟨hindex, rfl, rfl⟩ := entryOf?_eq_some.mp hentry
    exact ⟨rfl, index, hindex, List.mem_zipIdx_iff_getElem?.mp hmem, rfl⟩
  · rintro ⟨hgeneration, index, hindex, hnumber, rfl⟩
    refine ⟨(k.number, index), List.mem_zipIdx_iff_getElem?.mpr hnumber, ?_⟩
    refine entryOf?_eq_some.mpr ⟨hindex, ?_, rfl⟩
    rw [← hgeneration]

/-- The entries come in the order of their indices. -/
theorem pairwise_memberEntries (stream : Nat) (s : ObjectStream) :
    (memberEntries stream s).Pairwise fun a b =>
      ∀ i j, a.2 = .compressed stream i → b.2 = .compressed stream j → i < j := by
  have hindex : s.numbers.zipIdx.Pairwise fun a b => a.2 < b.2 := by
    rw [← List.pairwise_map (f := Prod.snd) (R := (· < ·)), List.zipIdx_map_snd]
    exact List.pairwise_lt_range'
  refine hindex.filterMap _ fun a b hlt e he e' he' i j hi hj => ?_
  obtain ⟨_, _, ha⟩ := entryOf?_eq_some.mp he
  obtain ⟨_, _, hb⟩ := entryOf?_eq_some.mp he'
  rw [ha] at hi
  rw [hb] at hj
  rwa [← (Entry.compressed.inj hi).2, ← (Entry.compressed.inj hj).2]

/-- Of the entries for a number, the one that is found has the lowest index. -/
theorem le_of_lookup_memberEntries {stream i j : Nat} {s : ObjectStream} {k : Key}
    (h : OrderedMap.lookup k (memberEntries stream s) = some (.compressed stream i))
    (hj : s.numbers[j]? = some k.number) : i ≤ j := by
  obtain ⟨hgeneration, i', hi, _, he⟩ := mem_memberEntries.mp (OrderedMap.mem_of_lookup h)
  obtain ⟨_, rfl⟩ := Entry.compressed.inj he
  refine Nat.le_of_not_lt fun hlt => ?_
  have hlow : (k, Entry.compressed stream j) ∈ memberEntries stream s :=
    mem_memberEntries.mpr ⟨hgeneration, j, by omega, hj, rfl⟩
  rcases OrderedMap.rel_of_lookup (pairwise_memberEntries stream s) h hlow with heq | hbehind
  · exact Nat.lt_irrefl i ((Entry.compressed.inj heq).2 ▸ hlt)
  · exact Nat.lt_asymm hlt (hbehind i j rfl rfl)

/-- Adding a member to the table is adding its entry. -/
theorem table_addMember (tolerance : Tolerance) (k : Key) (s : ObjectStream) (r : Recovery)
    (member : Nat × Nat) :
    (addMember tolerance k s r member).table =
      r.table.addAll (entryOf? k.number member).toList := by
  obtain ⟨number, index⟩ := member
  unfold addMember entryOf?
  dsimp only
  by_cases hindex : Decimal.maxWord32 < index
  · simp [hindex, Table.addAll]
  · cases htaken : r.table.contains ⟨number, 0⟩ with
    | true => simp [hindex, Table.addAll, Table.add, htaken]
    | false =>
      rw [Bool.or_false, if_neg (by simpa using hindex), if_neg hindex]
      -- reading the member changes nothing in the table
      cases s.object tolerance index <;> rfl

theorem table_foldl_addMember (tolerance : Tolerance) (k : Key) (s : ObjectStream)
    (members : List (Nat × Nat)) (r : Recovery) :
    (members.foldl (addMember tolerance k s) r).table =
      r.table.addAll (members.filterMap (entryOf? k.number)) := by
  induction members generalizing r with
  | nil => rfl
  | cons member rest ih =>
    rw [List.foldl_cons, ih, table_addMember, List.filterMap_cons]
    cases entryOf? k.number member <;> rfl

/-! ## Object streams -/

/-- The object stream that an object is, opened, if it is one and can be opened. -/
def opened? (tolerance : Tolerance) : Object → Option ObjectStream
  | .stream entries data =>
    if entries.type? = some (Name.ofString "ObjStm") then
      (ObjectStream.ofStream tolerance entries data).toOption
    else none
  | _ => none

/-- The object stream that is defined at an offset of a document, with the key of its definition. -/
def streamAt? (tolerance : Tolerance) (file : Bytes) (offset : Nat) : Option (Key × ObjectStream) :=
  match Object.readDefinition tolerance ⟨offset, file.drop offset⟩ with
  | .ok (key, x) _ => (opened? tolerance x).map (key, ·)
  | .error _ _ => none

/-- The entries that a look at an object with a key adds. -/
def examined (tolerance : Tolerance) (openStreams : Bool) (k : Key) (x : Object) :
    List (Key × Entry) :=
  if openStreams then (opened? tolerance x).elim [] (memberEntries k.number) else []

/-- The entries that a visit to the definition of a key at an offset adds. -/
def finds (tolerance : Tolerance) (openStreams : Bool) (file : Bytes) (located : Key × Nat) :
    List (Key × Entry) :=
  match Object.readDefinition tolerance ⟨located.2, file.drop located.2⟩ with
  | .ok (key, x) _ => if key = located.1 then examined tolerance openStreams key x else []
  | .error _ _ => []

variable {tolerance : Tolerance} {openStreams : Bool} {file : Bytes}

theorem mem_examined {k : Key} {x : Object} {e : Key × Entry} :
    e ∈ examined tolerance openStreams k x ↔
      openStreams = true ∧ ∃ s, opened? tolerance x = some s ∧ e ∈ memberEntries k.number s := by
  unfold examined
  cases openStreams <;> cases opened? tolerance x <;> simp

theorem mem_finds {located : Key × Nat} {e : Key × Entry} :
    e ∈ finds tolerance openStreams file located ↔
      openStreams = true ∧ ∃ s, streamAt? tolerance file located.2 = some (located.1, s) ∧
        e ∈ memberEntries located.1.number s := by
  unfold finds streamAt?
  cases Object.readDefinition tolerance ⟨located.2, file.drop located.2⟩ with
  | error e c => simp
  | ok found c =>
    obtain ⟨key, x⟩ := found
    dsimp only
    by_cases hkey : key = located.1
    · rw [if_pos hkey, mem_examined, hkey]
      simp
    · simp [hkey]

theorem finds_of_streamAt? {located : Key × Nat} {s : ObjectStream}
    (h : streamAt? tolerance file located.2 = some (located.1, s)) :
    finds tolerance true file located = memberEntries located.1.number s := by
  unfold streamAt? at h
  unfold finds
  cases hread : Object.readDefinition tolerance ⟨located.2, file.drop located.2⟩ with
  | error e c =>
    rw [hread] at h
    cases h
  | ok found c =>
    rw [hread] at h
    obtain ⟨s', hs, hpair⟩ := Option.map_eq_some_iff.mp h
    obtain ⟨hkey, rfl⟩ := Prod.mk.inj hpair
    dsimp only
    rw [if_pos hkey, examined, if_pos rfl, hs, hkey]
    rfl

theorem table_addMembers (r : Recovery) (k : Key) (entries : Dict Object) (data : Bytes) :
    (r.addMembers tolerance k entries data).table =
      r.table.addAll
        ((ObjectStream.ofStream tolerance entries data).toOption.elim []
          (memberEntries k.number)) := by
  unfold addMembers
  cases ObjectStream.ofStream tolerance entries data with
  | error e => rfl
  | ok s => exact table_foldl_addMember tolerance k s s.numbers.zipIdx r

theorem table_examine (r : Recovery) (k : Key) (x : Object) :
    (r.examine tolerance openStreams k x).table =
      r.table.addAll (examined tolerance openStreams k x) := by
  unfold examine examined opened?
  cases x with
  | stream entries data =>
    by_cases htype : entries.type? = some (Name.ofString "ObjStm")
    · cases openStreams with
      | false => rfl
      | true => simpa [htype] using table_addMembers { r with stats := _ } k entries data
    · cases openStreams <;> simp [htype, Table.addAll]
  | _ => cases openStreams <;> rfl

/-- A visit adds what it finds. -/
theorem table_visit (r : Recovery) (located : Key × Nat) :
    (visit tolerance openStreams file r located).table =
      r.table.addAll (finds tolerance openStreams file located) := by
  unfold visit finds
  dsimp only
  cases Object.readDefinition tolerance ⟨located.2, file.drop located.2⟩ with
  | error e c => rfl
  | ok found c =>
    obtain ⟨key, x⟩ := found
    dsimp only
    by_cases hkey : key = located.1
    · rw [if_pos hkey, if_pos hkey, hkey, table_examine]
    · rw [if_neg hkey, if_neg hkey]
      rfl

theorem table_foldl_visit (located : List (Key × Nat)) (r : Recovery) :
    (located.foldl (visit tolerance openStreams file) r).table =
      r.table.addAll (located.flatMap (finds tolerance openStreams file)) := by
  induction located generalizing r with
  | nil => rfl
  | cons first rest ih =>
    rw [List.foldl_cons, ih, table_visit, List.flatMap_cons, Table.addAll_append]

/-! ## The whole table -/

/-- The entries for the headers that a scan keeps. -/
def headerEntries (index : ScanIndex) : List (Key × Entry) :=
  index.lastOffsets.map fun e => (e.1, .direct e.2)

/-- The headers that are kept have different keys. -/
theorem distinct_headerEntries (index : ScanIndex) :
    (headerEntries index).Pairwise fun a b => a.1 ≠ b.1 :=
  List.pairwise_map.mpr (ScanIndex.distinct_lastOffsets index)

/-- The entries that visits to all these headers add. -/
def foundEntries (options : Options) (file : Bytes) (index : ScanIndex) : List (Key × Entry) :=
  index.lastOffsets.flatMap (finds options.toTolerance options.rebuildStreams file)

theorem table_survey (options : Options) (file : Bytes) (index : ScanIndex) :
    (survey options file index).table =
      .ofList (headerEntries index ++ foundEntries options file index) := by
  unfold survey
  dsimp only
  rw [table_foldl_visit, Table.ofList, Table.ofList, Table.addAll_append]
  rfl

/-- A rebuilt table is that of the headers, and of what was found behind them. -/
theorem table_run {options : Options} {index : ScanIndex} {t : Trailer}
    {rebuilt : Recovery × Trailer} (h : run options file index t = .ok rebuilt) :
    rebuilt.1.table = .ofList (headerEntries index ++ foundEntries options file index) := by
  rw [eq_survey_of_run h]
  exact table_survey options file index

end Recovery

end CrossReference
