import CrossReference.Proofs.Scan.Markers

set_option autoImplicit false

/-! # The order of what a scan finds

A scan goes through a document from its start to its end, so the offsets of what it finds ascend.
With what it finds this says all about its lists (`scan_lists`). It is also what makes the last
header in the list with a key the one that stands furthest into the document, and
`mem_lastOffsets_scan` says so of the headers that a scan keeps. -/

namespace CrossReference

namespace ScanIndex

/-! ## Ascending offsets -/

theorem position_le_of_mem_linesFrom {c : Cursor} {rounds : Nat} {l : Nat × Bytes}
    (h : l ∈ linesFrom c rounds) : c.position ≤ l.1 := by
  induction rounds generalizing c with
  | zero => simp [linesFrom] at h
  | succ rounds ih =>
    unfold linesFrom at h
    split at h
    · simp at h
    · rcases List.mem_cons.mp h with rfl | h
      · exact Nat.le_refl _
      · exact Nat.le_trans (Nat.le_add_right _ _) (ih h)

/-- Each line ends before the next one begins. -/
theorem pairwise_linesFrom (c : Cursor) (rounds : Nat) :
    (linesFrom c rounds).Pairwise fun l l' => l.1 + l.2.length ≤ l'.1 := by
  induction rounds generalizing c with
  | zero => exact List.Pairwise.nil
  | succ rounds ih =>
    unfold linesFrom
    split
    · exact List.Pairwise.nil
    · refine List.pairwise_cons.mpr ⟨fun l' hl' => ?_, ih c.skipLine⟩
      have hbehind : c.position + c.line.length ≤ c.skipLine.position := by
        change c.position + (Bytes.line c.rest).length ≤ c.position + Bytes.lineLength c.rest
        unfold Bytes.lineLength
        dsimp only
        omega
      exact Nat.le_trans hbehind (position_le_of_mem_linesFrom hl')

/-- What is found behind the blanks of lines has ascending offsets, since each line ends in front of
    the next one. -/
theorem pairwise_filterMap_lines {α : Type} {find : Nat × Bytes → Option α} (offsetOf : α → Nat)
    (onLine : ∀ l a, find l = some a →
      (splitBlanks l.2).2 ≠ [] ∧ l.1 + (splitBlanks l.2).1.length = offsetOf a) (file : Bytes) :
    ((lines file).filterMap find).Pairwise fun a a' => offsetOf a < offsetOf a' := by
  refine (pairwise_linesFrom (.start file) file.length).filterMap _ ?_
  intro l l' hll a ha a' ha'
  obtain ⟨hne, hoffset⟩ := onLine l a ha
  obtain ⟨_, hoffset'⟩ := onLine l' a' ha'
  have hpos : 0 < (splitBlanks l.2).2.length := List.length_pos_iff.mpr hne
  have hlen : (splitBlanks l.2).2.length = l.2.length - (splitBlanks l.2).1.length :=
    List.length_drop
  omega

theorem pairwise_objects_scan (file : Bytes) :
    (scan file).objects.Pairwise fun e e' => e.2 < e'.2 := by
  rw [scan_eq]
  refine pairwise_filterMap_lines Prod.snd (fun l e he => ?_) file
  obtain ⟨⟨f, hf, _⟩, hoffset⟩ := objectOn_eq_some.mp he
  exact ⟨hf ▸ f.text_ne_nil, hoffset⟩

theorem pairwise_tables_scan (file : Bytes) : (scan file).tables.Pairwise (· < ·) := by
  rw [scan_eq]
  refine pairwise_filterMap_lines id (fun l offset hoffset => ?_) file
  obtain ⟨⟨tail, htail, _⟩, hoffset⟩ := tableOn_eq_some.mp hoffset
  exact ⟨htail ▸ List.cons_ne_nil _ _, hoffset⟩

/-- A scan lists the object headers and the keywords `xref` in front of which there are only blanks
    on their line and that are complete within it. It lists all of them and nothing else, each of
    them once, in the order of the document. -/
theorem scan_lists (file : Bytes) :
    (∀ k offset, (k, offset) ∈ (scan file).objects ↔
      LeadsLine file offset ∧
        ∃ f : HeaderForm, f.text = Bytes.line (file.drop offset) ∧ f.key = k) ∧
    (scan file).objects.Pairwise (fun e e' => e.2 < e'.2) ∧
    (∀ offset, offset ∈ (scan file).tables ↔
      LeadsLine file offset ∧
        ∃ tail, Bytes.line (file.drop offset) = Reserved.xref.spelling ++ tail ∧
          Bytes.Stops Byte.isRegular tail) ∧
    (scan file).tables.Pairwise (· < ·) :=
  ⟨fun _ _ => mem_objects_scan.trans marker_iff_leadsLine, pairwise_objects_scan file,
    fun _ => mem_tables_scan, pairwise_tables_scan file⟩

/-- A header behind blanks, one that does not lead its line, and lines of all three endings. -/
example : scan (ascii "1 0 obj\n  2 0 obj\r\nnull\rstream 3 0 obj\nxref\n0 1\nxrefs") =
    { objects := [(⟨1, 0⟩, 0), (⟨2, 0⟩, 10)], tables := [39] } := by
  decide +kernel

/-! ## Last headers -/

/-- The last header with a key in a document. -/
structure LastMarker (file : Bytes) (k : Key) (offset : Nat) : Prop where
  marker : Marker file k offset
  last : ∀ offset', Marker file k offset' → offset' ≤ offset

theorem withoutRepeats_sublist (entries : List (Key × Nat)) :
    (withoutRepeats entries).Sublist entries := by
  induction entries with
  | nil => exact List.Sublist.slnil
  | cons e rest ih =>
    unfold withoutRepeats
    split
    · exact ih.cons e
    · exact ih.cons_cons e

theorem exists_mem_withoutRepeats {entries : List (Key × Nat)} {k : Key} {offset : Nat}
    (h : (k, offset) ∈ entries) : ∃ offset', (k, offset') ∈ withoutRepeats entries := by
  induction entries generalizing offset with
  | nil => cases h
  | cons e rest ih =>
    unfold withoutRepeats
    by_cases hany : rest.any (·.1 = e.1) = true
    · rw [if_pos hany]
      rcases List.mem_cons.mp h with rfl | h
      · obtain ⟨e', he', hkey⟩ := List.any_eq_true.mp hany
        obtain rfl := of_decide_eq_true hkey
        exact ih he'
      · exact ih h
    · rw [if_neg hany]
      rcases List.mem_cons.mp h with rfl | h
      · exact ⟨offset, List.mem_cons_self⟩
      · obtain ⟨offset', h'⟩ := ih h
        exact ⟨offset', List.mem_cons_of_mem e h'⟩

theorem distinct_withoutRepeats (entries : List (Key × Nat)) :
    (withoutRepeats entries).Pairwise fun e e' => e.1 ≠ e'.1 := by
  induction entries with
  | nil => exact List.Pairwise.nil
  | cons e rest ih =>
    unfold withoutRepeats
    split
    · exact ih
    · rename_i hany
      refine List.pairwise_cons.mpr ⟨fun e' he' hkey => ?_, ih⟩
      refine hany (List.any_eq_true.mpr ⟨e', (withoutRepeats_sublist rest).subset he', ?_⟩)
      exact decide_eq_true hkey.symm

/-- Of headers with ascending offsets, those are kept that are the last ones with their keys. -/
theorem mem_withoutRepeats {entries : List (Key × Nat)}
    (ascending : entries.Pairwise fun e e' => e.2 < e'.2) {k : Key} {offset : Nat} :
    (k, offset) ∈ withoutRepeats entries ↔
      (k, offset) ∈ entries ∧ ∀ offset', (k, offset') ∈ entries → offset' ≤ offset := by
  induction entries with
  | nil => simp [withoutRepeats]
  | cons e rest ih =>
    obtain ⟨habove, hrest⟩ := List.pairwise_cons.mp ascending
    have hih := ih hrest
    unfold withoutRepeats
    by_cases hany : rest.any (·.1 = e.1) = true
    · rw [if_pos hany, hih]
      constructor
      · rintro ⟨hmem, hlast⟩
        refine ⟨List.mem_cons_of_mem e hmem, fun offset' hmem' => ?_⟩
        rcases List.mem_cons.mp hmem' with rfl | hmem'
        · exact Nat.le_of_lt (habove _ hmem)
        · exact hlast offset' hmem'
      · rintro ⟨hmem, hlast⟩
        have hlast' : ∀ offset', (k, offset') ∈ rest → offset' ≤ offset := fun offset' hmem' =>
          hlast offset' (List.mem_cons_of_mem e hmem')
        rcases List.mem_cons.mp hmem with rfl | hmem
        · -- the first header is repeated further on
          obtain ⟨⟨k', offset'⟩, he', hkey⟩ := List.any_eq_true.mp hany
          obtain rfl : k' = k := of_decide_eq_true hkey
          exact absurd (habove _ he') (Nat.not_lt.mpr (hlast' offset' he'))
        · exact ⟨hmem, hlast'⟩
    · rw [if_neg hany, List.mem_cons, List.mem_cons, hih]
      have hnot : ∀ offset', (e.1, offset') ∉ rest := fun offset' hmem =>
        hany (List.any_eq_true.mpr ⟨_, hmem, decide_eq_true rfl⟩)
      constructor
      · rintro (rfl | ⟨hmem, hlast⟩)
        · refine ⟨Or.inl rfl, fun offset' hmem' => ?_⟩
          rcases List.mem_cons.mp hmem' with heq | hmem'
          · exact Nat.le_of_eq (Prod.mk.inj heq).2
          · exact absurd hmem' (hnot offset')
        · refine ⟨Or.inr hmem, fun offset' hmem' => ?_⟩
          rcases List.mem_cons.mp hmem' with rfl | hmem'
          · exact absurd hmem (hnot offset)
          · exact hlast offset' hmem'
      · rintro ⟨rfl | hmem, hlast⟩
        · exact Or.inl rfl
        · exact Or.inr ⟨hmem, fun offset' hmem' => hlast offset' (List.mem_cons_of_mem e hmem')⟩

theorem mem_of_lastOffset? {index : ScanIndex} {k : Key} {offset : Nat}
    (h : index.lastOffset? k = some offset) : (k, offset) ∈ index.objects := by
  unfold lastOffset? at h
  rw [Option.map_eq_some_iff] at h
  obtain ⟨⟨k', offset'⟩, hfind, rfl⟩ := h
  have hk : k' = k := by simpa using List.find?_some hfind
  subst hk
  exact List.mem_reverse.mp (List.mem_of_find?_eq_some hfind)

/-- A scan keeps the last header with each key. -/
theorem mem_lastOffsets_scan {file : Bytes} {k : Key} {offset : Nat} :
    (k, offset) ∈ (scan file).lastOffsets ↔ LastMarker file k offset := by
  unfold lastOffsets
  rw [mem_withoutRepeats (pairwise_objects_scan file)]
  simp only [mem_objects_scan]
  exact ⟨fun h => ⟨h.1, h.2⟩, fun h => ⟨h.marker, h.last⟩⟩

theorem pairwise_lastOffsets_scan (file : Bytes) :
    (scan file).lastOffsets.Pairwise fun e e' => e.2 < e'.2 :=
  (pairwise_objects_scan file).sublist (withoutRepeats_sublist _)

theorem distinct_lastOffsets (index : ScanIndex) :
    index.lastOffsets.Pairwise fun e e' => e.1 ≠ e'.1 := distinct_withoutRepeats index.objects

/-- The offset that a scan knows for a key is that of the last header with it. -/
theorem lastOffset?_scan_eq_some {file : Bytes} {k : Key} {offset : Nat} :
    (scan file).lastOffset? k = some offset ↔ LastMarker file k offset := by
  have hlast : ∀ last, (scan file).lastOffset? k = some last → LastMarker file k last := by
    intro last h
    refine ⟨mem_objects_scan.mp (mem_of_lastOffset? h), fun offset' hmarker => ?_⟩
    obtain ⟨⟨k', last'⟩, hfind, rfl⟩ := Option.map_eq_some_iff.mp h
    obtain ⟨_, behind, front, hsplit, hbehind⟩ := List.find?_eq_some_iff_append.mp hfind
    have hmem : (k, offset') ∈ (scan file).objects.reverse :=
      List.mem_reverse.mpr (mem_objects_scan.mpr hmarker)
    have hdescending := List.pairwise_reverse.mpr (pairwise_objects_scan file)
    rw [hsplit] at hmem hdescending
    -- the headers behind it have other keys, and those in front of it lesser offsets
    rcases List.mem_append.mp hmem with hmem | hmem
    · simpa using hbehind _ hmem
    · rcases List.mem_cons.mp hmem with heq | hmem
      · exact Nat.le_of_eq (Prod.mk.inj heq).2
      · have hfront := (List.pairwise_cons.mp (List.pairwise_append.mp hdescending).2.1).1 _ hmem
        exact Nat.le_of_lt hfront
  refine ⟨hlast offset, fun h => ?_⟩
  obtain ⟨last, hknown⟩ : ∃ last, (scan file).lastOffset? k = some last := by
    refine Option.isSome_iff_exists.mp ?_
    unfold lastOffset?
    rw [Option.isSome_map, List.find?_isSome]
    exact ⟨(k, offset), List.mem_reverse.mpr (mem_objects_scan.mpr h.marker), decide_eq_true rfl⟩
  have hmarker := hlast last hknown
  rw [hknown, Nat.le_antisymm (h.last last hmarker.marker) (hmarker.last offset h.marker)]

/-- Among the headers with a key there is a last one. -/
theorem exists_lastMarker {file : Bytes} {k : Key} {offset : Nat} (h : Marker file k offset) :
    ∃ last, LastMarker file k last := by
  obtain ⟨last, hlast⟩ := exists_mem_withoutRepeats (mem_objects_scan.mpr h)
  exact ⟨last, mem_lastOffsets_scan.mp hlast⟩

end ScanIndex

end CrossReference
