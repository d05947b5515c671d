import CrossReference.Proofs.Scan.Grammar
import CrossReference.Proofs.Scan.Lines

set_option autoImplicit false

/-! # What a scan finds

A `Marker` is an object header at the front of a line, behind blanks at most, and a `TableMarker` is
the keyword `xref` there. The scan goes through the lines and keeps what each of them holds, so it
finds all markers of a document and nothing else. Both results are cases of `exists_line_iff`, which
leads from the lines to the offsets in a document. -/

namespace CrossReference

/-- Whether only blanks stand in front of an offset on its line. -/
def LeadsLine (file : Bytes) (offset : Nat) : Prop :=
  ∃ before blanks, file = before ++ (blanks ++ file.drop offset) ∧
    Bytes.LineBreak before (blanks ++ file.drop offset) ∧
    (∀ b ∈ blanks, Byte.isBlank b = true) ∧ offset = before.length + blanks.length

namespace ScanIndex

/-! ## Finds line by line -/

/-- The blanks at the front of a line, and what stands behind them. -/
def splitBlanks (line : Bytes) : Bytes × Bytes :=
  (line.takeWhile Byte.isBlank, line.drop (line.takeWhile Byte.isBlank).length)

/-- The object header on a line that begins at an offset. -/
def objectOn (l : Nat × Bytes) : Option (Key × Nat) :=
  (leadingHeader? (splitBlanks l.2).2).map (·, l.1 + (splitBlanks l.2).1.length)

/-- The offset of the keyword `xref` on a line that begins at an offset. -/
def tableOn (l : Nat × Bytes) : Option Nat :=
  if beginsTable (splitBlanks l.2).2 then some (l.1 + (splitBlanks l.2).1.length) else none

/-- No line begins with the keyword and with an object header. -/
theorem leadingHeader?_of_beginsTable {text : Bytes} (h : beginsTable text = true) :
    leadingHeader? text = none := by
  obtain ⟨rest, rfl, _⟩ := beginsTable_iff.mp h
  rw [Option.eq_none_iff_forall_ne_some]
  intro k hk
  obtain ⟨f, hf, _⟩ := leadingHeader?_eq_some.mp hk
  cases hn : f.number with
  | nil => exact f.isNumber.ne_nil hn
  | cons b number =>
    have hb := f.isNumber.isDigit b (by rw [hn]; exact List.mem_cons_self)
    rw [HeaderForm.text, hn] at hf
    obtain rfl : b = 0x78 := (List.cons.inj hf).1
    exact absurd hb (by decide)

theorem addLine_eq (index : ScanIndex) (l : Nat × Bytes) :
    index.addLine l.1 l.2 =
      { objects := (objectOn l).toList ++ index.objects
        tables := (tableOn l).toList ++ index.tables } := by
  unfold addLine objectOn tableOn splitBlanks
  dsimp only
  by_cases htable : beginsTable (l.2.drop (l.2.takeWhile Byte.isBlank).length) = true
  · rw [if_pos htable, if_pos htable, leadingHeader?_of_beginsTable htable]
    rfl
  · rw [if_neg htable, if_neg htable]
    cases leadingHeader? (l.2.drop (l.2.takeWhile Byte.isBlank).length) <;> rfl

theorem foldl_addLine (index : ScanIndex) (ls : List (Nat × Bytes)) :
    ls.foldl (fun index l => index.addLine l.1 l.2) index =
      { objects := (ls.filterMap objectOn).reverse ++ index.objects
        tables := (ls.filterMap tableOn).reverse ++ index.tables } := by
  induction ls generalizing index with
  | nil => rfl
  | cons l rest ih =>
    rw [List.foldl_cons, ih, addLine_eq, List.filterMap_cons, List.filterMap_cons]
    cases objectOn l <;> cases tableOn l <;> simp

/-- A scan finds what the lines hold, in the order of the document. -/
theorem scan_eq (file : Bytes) :
    scan file =
      { objects := (lines file).filterMap objectOn, tables := (lines file).filterMap tableOn } := by
  unfold scan
  rw [addLines_eq, foldl_addLine]
  simp [lines]

/-! ## Fronts of lines -/

theorem isBlank_of_isDigit {b : UInt8} (h : Byte.isDigit b = true) : Byte.isBlank b = false := by
  cases hb : Byte.isBlank b with
  | false => rfl
  | true =>
    have hw : Byte.isWhite b = true := by
      simp only [Byte.isBlank, Bool.and_eq_true] at hb
      exact hb.1
    rw [Byte.not_isDigit_of_isWhite hw] at h
    cases h

theorem not_isLineEnd_of_isBlank {b : UInt8} (h : Byte.isBlank b = true) :
    (!Byte.isLineEnd b) = true := by
  simp only [Byte.isBlank, Bool.and_eq_true] at h
  exact h.2

/-- Blanks at the front of a text belong to its first line. -/
theorem line_append_blanks {blanks : Bytes} (hb : ∀ b ∈ blanks, Byte.isBlank b = true)
    (text : Bytes) : Bytes.line (blanks ++ text) = blanks ++ Bytes.line text :=
  List.takeWhile_append_of_pos fun b h => not_isLineEnd_of_isBlank (hb b h)

theorem splitBlanks_line {blanks text : Bytes} (hblanks : ∀ b ∈ blanks, Byte.isBlank b = true)
    (hstop : Bytes.Stops Byte.isBlank (Bytes.line text)) :
    splitBlanks (Bytes.line (blanks ++ text)) = (blanks, Bytes.line text) := by
  unfold splitBlanks
  rw [line_append_blanks hblanks, Bytes.takeWhile_run hblanks hstop, List.drop_left]

variable {file : Bytes} {offset : Nat}

/-- What leads a line can be said with the parts of the document in view or with its offset. -/
theorem exists_split_iff {P : Bytes → Prop} :
    (∃ before blanks text, file = before ++ (blanks ++ text) ∧
      Bytes.LineBreak before (blanks ++ text) ∧ (∀ b ∈ blanks, Byte.isBlank b = true) ∧
      offset = before.length + blanks.length ∧ P (Bytes.line text)) ↔
    LeadsLine file offset ∧ P (Bytes.line (file.drop offset)) := by
  constructor
  · rintro ⟨before, blanks, text, rfl, hbreak, hblanks, rfl, htext⟩
    have hdrop : (before ++ (blanks ++ text)).drop (before.length + blanks.length) = text := by
      rw [List.drop_length_add_append, List.drop_left]
    unfold LeadsLine
    rw [hdrop]
    exact ⟨⟨before, blanks, rfl, hbreak, hblanks, rfl⟩, htext⟩
  · rintro ⟨⟨before, blanks, hfile, hbreak, hblanks, hoffset⟩, htext⟩
    exact ⟨before, blanks, file.drop offset, hfile, hbreak, hblanks, hoffset, htext⟩

/-- What lines hold behind their blanks stands at offsets that lead a line, and the other way
    round. -/
theorem exists_line_iff {P : Bytes → Prop}
    (front : ∀ text, P text → text ≠ [] ∧ Bytes.Stops Byte.isBlank text) :
    (∃ l ∈ lines file, P (splitBlanks l.2).2 ∧ l.1 + (splitBlanks l.2).1.length = offset) ↔
      LeadsLine file offset ∧ P (Bytes.line (file.drop offset)) := by
  rw [← exists_split_iff]
  constructor
  · rintro ⟨l, hl, htext, rfl⟩
    obtain ⟨before, rest, rfl, _, hbreak, rfl⟩ := mem_lines.mp hl
    obtain ⟨blanks, text, rfl, hblanks, hstop⟩ := Bytes.exists_run Byte.isBlank rest
    -- the line ends no later than the text, so its blanks are those of the text
    have hsplit := splitBlanks_line hblanks (hstop.takeWhile _)
    dsimp only at htext ⊢
    rw [hsplit] at htext ⊢
    exact ⟨before, blanks, text, rfl, hbreak, hblanks, rfl, htext⟩
  · rintro ⟨before, blanks, text, rfl, hbreak, hblanks, rfl, htext⟩
    obtain ⟨hne, hstop⟩ := front _ htext
    have hrest : blanks ++ text ≠ [] := by
      intro h
      obtain ⟨_, rfl⟩ := List.append_eq_nil_iff.mp h
      exact hne rfl
    refine ⟨_, mem_lines.mpr ⟨before, blanks ++ text, rfl, hrest, hbreak, rfl⟩, ?_⟩
    dsimp only
    rw [splitBlanks_line hblanks hstop]
    exact ⟨htext, rfl⟩

/-! ## Markers -/

/-- An object header with a key at an offset, in front of which there are only blanks on its line,
    and which ends on its line. -/
def Marker (file : Bytes) (k : Key) (offset : Nat) : Prop :=
  ∃ before blanks text, file = before ++ (blanks ++ text) ∧
    Bytes.LineBreak before (blanks ++ text) ∧ (∀ b ∈ blanks, Byte.isBlank b = true) ∧
    offset = before.length + blanks.length ∧
    ∃ f : HeaderForm, f.text = Bytes.line text ∧ f.key = k

theorem HeaderForm.stops_blank (f : HeaderForm) : Bytes.Stops Byte.isBlank f.text := by
  cases hn : f.number with
  | nil => exact absurd hn f.isNumber.ne_nil
  | cons b number =>
    rw [HeaderForm.text, hn]
    exact Bytes.stops_cons.mpr
      (isBlank_of_isDigit (f.isNumber.isDigit b (by rw [hn]; exact List.mem_cons_self)))

theorem HeaderForm.text_ne_nil (f : HeaderForm) : f.text ≠ [] := by
  intro h
  exact f.isNumber.ne_nil (List.append_eq_nil_iff.mp h).1

theorem marker_iff_leadsLine {k : Key} :
    Marker file k offset ↔
      LeadsLine file offset ∧
        ∃ f : HeaderForm, f.text = Bytes.line (file.drop offset) ∧ f.key = k :=
  exists_split_iff (P := fun text => ∃ f : HeaderForm, f.text = text ∧ f.key = k)

theorem objectOn_eq_some {l : Nat × Bytes} {k : Key} :
    objectOn l = some (k, offset) ↔
      (∃ f : HeaderForm, f.text = (splitBlanks l.2).2 ∧ f.key = k) ∧
        l.1 + (splitBlanks l.2).1.length = offset := by
  unfold objectOn
  rw [Option.map_eq_some_iff, ← leadingHeader?_eq_some]
  simp only [Prod.mk.injEq]
  constructor
  · rintro ⟨k', hk, rfl, hoffset⟩
    exact ⟨hk, hoffset⟩
  · rintro ⟨hk, hoffset⟩
    exact ⟨k, hk, rfl, hoffset⟩

/-- The objects that a scan finds are the markers of the document. -/
theorem mem_objects_scan {k : Key} :
    (k, offset) ∈ (scan file).objects ↔ Marker file k offset := by
  rw [scan_eq, marker_iff_leadsLine, List.mem_filterMap]
  simp only [objectOn_eq_some]
  refine exists_line_iff (P := fun text => ∃ f : HeaderForm, f.text = text ∧ f.key = k) ?_
  rintro text ⟨f, rfl, _⟩
  exact ⟨f.text_ne_nil, f.stops_blank⟩

/-- The keyword `xref` at an offset, in front of which there are only blanks on its line, and which
    is not the front part of a longer word. -/
def TableMarker (file : Bytes) (offset : Nat) : Prop :=
  LeadsLine file offset ∧ ∃ tail,
    Bytes.line (file.drop offset) = Reserved.xref.spelling ++ tail ∧
      Bytes.Stops Byte.isRegular tail

theorem tableOn_eq_some {l : Nat × Bytes} :
    tableOn l = some offset ↔
      (∃ tail, (splitBlanks l.2).2 = Reserved.xref.spelling ++ tail ∧
        Bytes.Stops Byte.isRegular tail) ∧ l.1 + (splitBlanks l.2).1.length = offset := by
  unfold tableOn
  rw [Option.ite_none_right_eq_some, beginsTable_iff, Option.some.injEq]

/-- The tables that a scan finds are the keywords `xref` at the front of lines. -/
theorem mem_tables_scan : offset ∈ (scan file).tables ↔ TableMarker file offset := by
  rw [scan_eq, List.mem_filterMap]
  simp only [tableOn_eq_some]
  refine exists_line_iff (P := fun text => ∃ tail, text = Reserved.xref.spelling ++ tail ∧
    Bytes.Stops Byte.isRegular tail) ?_
  rintro text ⟨tail, rfl, _⟩
  exact ⟨List.cons_ne_nil _ _, Bytes.stops_cons.mpr (by decide)⟩

end ScanIndex

end CrossReference
