import CrossReference.Proofs.Bytes.Runs
import CrossReference.Scan

set_option autoImplicit false

/-! # The lines that a scan goes through

The scan steps from line to line. `linesFrom` lists these steps, and `mem_linesFrom` says which
places they are, without reference to the steps: those in front of which the text is empty or ends a
line. The proof rests on two facts about one step. It does not go beyond such a place
(`lineLength_le`), and it ends at one (`lineBreak_lineLength`). -/

namespace CrossReference

namespace Bytes

/-! ## Places where lines begin -/

/-- Whether a line begins between two parts of a text. It does not between the two bytes of one
    end. -/
def LineBreak (before rest : Bytes) : Prop :=
  before = [] ∨ before.getLast? = some 0x0A ∨
    (before.getLast? = some 0x0D ∧ rest.head? ≠ some 0x0A)

theorem lineBreak_append {first before rest : Bytes} (hne : before ≠ []) :
    LineBreak (first ++ before) rest ↔ LineBreak before rest := by
  have hlast : (first ++ before).getLast? = before.getLast? := by
    rw [List.getLast?_append]
    cases h : before.getLast? with
    | none => exact absurd (List.getLast?_eq_none_iff.mp h) hne
    | some b => rfl
  unfold LineBreak
  rw [hlast]
  simp [hne]

theorem isLineEnd_getLast {before rest : Bytes} (h : LineBreak before rest) (hne : before ≠ []) :
    ∃ b ∈ before, Byte.isLineEnd b = true := by
  rcases h with h | h | ⟨h, _⟩
  · exact absurd h hne
  · exact ⟨0x0A, List.mem_of_getLast? h, by decide⟩
  · exact ⟨0x0D, List.mem_of_getLast? h, by decide⟩

theorem stops_line (text : Bytes) : Stops (!Byte.isLineEnd ·) (text.drop (line text).length) := by
  unfold line
  rw [drop_length_takeWhile]
  exact stops_dropWhile _ text

theorem lineEndLength_of_stops {text : Bytes} (h : Stops (!Byte.isLineEnd ·) text) :
    text = [] ∨ (∃ rest, text = 0x0A :: rest ∧ lineEndLength text = 1) ∨
      (∃ rest, text = 0x0D :: 0x0A :: rest ∧ lineEndLength text = 2) ∨
      (∃ rest, text = 0x0D :: rest ∧ rest.head? ≠ some 0x0A ∧ lineEndLength text = 1) := by
  cases text with
  | nil => exact Or.inl rfl
  | cons b rest =>
    have hb : b = 0x0A ∨ b = 0x0D := by
      have hend : Byte.isLineEnd b = true := by simpa using stops_cons.mp h
      simpa only [Byte.isLineEnd, Bool.or_eq_true, decide_eq_true_eq] using hend
    rcases hb with rfl | rfl
    · exact Or.inr (Or.inl ⟨rest, rfl, rfl⟩)
    · cases rest with
      | nil => exact Or.inr (Or.inr (Or.inr ⟨[], rfl, by simp, rfl⟩))
      | cons c rest =>
        by_cases hc : c = 0x0A
        · subst hc
          exact Or.inr (Or.inr (Or.inl ⟨rest, rfl, rfl⟩))
        · refine Or.inr (Or.inr (Or.inr ⟨c :: rest, rfl, by simpa using hc, ?_⟩))
          simp [lineEndLength, hc]

theorem lineLength_run {run tail : Bytes} (hrun : ∀ b ∈ run, (!Byte.isLineEnd b) = true)
    (htail : Stops (!Byte.isLineEnd ·) tail) :
    lineLength (run ++ tail) = run.length + lineEndLength tail := by
  unfold lineLength line
  dsimp only
  rw [takeWhile_run hrun htail, List.drop_left]

/-- A line of a text does not reach over a place where a later line begins. -/
theorem lineLength_le {before rest : Bytes} (h : LineBreak before rest) (hne : before ≠ []) :
    lineLength (before ++ rest) ≤ before.length := by
  obtain ⟨run, tail, rfl, hrun, htail⟩ := exists_run (!Byte.isLineEnd ·) before
  -- the run is not all of it, since an end of line stands last
  have htne : tail ≠ [] := by
    rintro rfl
    obtain ⟨b, hb, hend⟩ := isLineEnd_getLast h hne
    have hb' := hrun b (by simpa using hb)
    rw [hend] at hb'
    cases hb'
  have hbreak : LineBreak tail rest := (lineBreak_append htne).mp h
  have hlen : lineEndLength (tail ++ rest) ≤ tail.length := by
    rcases lineEndLength_of_stops htail with rfl | ⟨more, rfl, _⟩ | ⟨more, rfl, _⟩ |
      ⟨more, rfl, hm, _⟩
    · exact absurd rfl htne
    · simp [lineEndLength]
    · simp [lineEndLength]
    · cases more with
      | cons c more =>
        have hc : c ≠ 0x0A := by simpa using hm
        simp [lineEndLength, hc]
      | nil =>
        -- the carriage return stands last, so no line feed follows it
        have hrest : rest.head? ≠ some 0x0A := by
          rcases hbreak with hb | hb | ⟨_, hb⟩
          · cases hb
          · simp at hb
          · exact hb
        cases rest with
        | nil => simp [lineEndLength]
        | cons c rest =>
          have hc : c ≠ 0x0A := by simpa using hrest
          simp [lineEndLength, hc]
  rw [List.append_assoc, lineLength_run hrun (stops_append_of_ne_nil htail htne),
    List.length_append]
  omega

/-- Behind a line of a text another one begins, unless the text is at its end. -/
theorem lineBreak_lineLength {text : Bytes} (h : text.drop (lineLength text) ≠ []) :
    LineBreak (text.take (lineLength text)) (text.drop (lineLength text)) := by
  obtain ⟨run, tail, rfl, hrun, htail⟩ := exists_run (!Byte.isLineEnd ·) text
  rw [lineLength_run hrun htail, List.drop_length_add_append] at h ⊢
  rw [List.take_length_add_append]
  rcases lineEndLength_of_stops htail with rfl | ⟨more, rfl, he⟩ | ⟨more, rfl, he⟩ |
    ⟨more, rfl, hm, he⟩
  · exact absurd rfl h
  · rw [he]
    simp [LineBreak]
  · rw [he]
    simp [LineBreak]
  · rw [he]
    simp [LineBreak, hm]

/-- Where a line can begin behind the first line, it can begin in the whole text. -/
theorem lineBreak_of_drop {text before rest : Bytes}
    (hsplit : text.drop (lineLength text) = before ++ rest) (hrest : rest ≠ [])
    (hbreak : LineBreak before rest) : LineBreak (text.take (lineLength text) ++ before) rest := by
  by_cases hb : before = []
  · subst hb
    have hdrop : text.drop (lineLength text) ≠ [] := by
      rw [hsplit]
      exact hrest
    rw [List.append_nil, ← List.nil_append rest, ← hsplit]
    exact lineBreak_lineLength hdrop
  · exact (lineBreak_append hb).mpr hbreak

/-- Where a line can begin in a text, it can begin in what a first part leaves of it. -/
theorem lineBreak_drop {before rest : Bytes} (hbreak : LineBreak before rest) (n : Nat) :
    LineBreak (before.drop n) rest := by
  by_cases hd : before.drop n = []
  · exact Or.inl hd
  · rw [← lineBreak_append hd, List.take_append_drop]
    exact hbreak

end Bytes

namespace ScanIndex

/-! ## The lines of a document -/

/-- The lines from a place on, in at most so many rounds, with their offsets. -/
def linesFrom (c : Cursor) : (rounds : Nat) → List (Nat × Bytes)
  | 0 => []
  | rounds + 1 => if c.isEnd then [] else (c.position, c.line) :: linesFrom c.skipLine rounds

/-- The lines of a document with their offsets. -/
def lines (file : Bytes) : List (Nat × Bytes) := linesFrom (.start file) file.length

theorem addLines_eq (index : ScanIndex) (c : Cursor) (rounds : Nat) :
    addLines index c rounds =
      (linesFrom c rounds).foldl (fun index l => index.addLine l.1 l.2) index := by
  induction rounds generalizing index c with
  | zero => rfl
  | succ rounds ih =>
    unfold addLines linesFrom
    split
    · rfl
    · rw [List.foldl_cons, ih]

/-- The lines from a place on are those that begin where a line can begin. -/
theorem mem_linesFrom {position rounds : Nat} {text : Bytes} (enough : text.length ≤ rounds)
    {l : Nat × Bytes} :
    l ∈ linesFrom ⟨position, text⟩ rounds ↔
      ∃ before rest, text = before ++ rest ∧ rest ≠ [] ∧ Bytes.LineBreak before rest ∧
        l = (position + before.length, Bytes.line rest) := by
  induction rounds generalizing position text with
  | zero =>
    obtain rfl : text = [] := List.length_eq_zero_iff.mp (Nat.le_zero.mp enough)
    unfold linesFrom
    simp
  | succ rounds ih =>
    unfold linesFrom
    cases htext : text with
    | nil => simp [Cursor.isEnd]
    | cons b tail =>
      rw [← htext]
      have hne : text ≠ [] := by rw [htext]; exact List.cons_ne_nil b tail
      have hpos := Bytes.lineLength_pos hne
      have hskip : (⟨position, text⟩ : Cursor).skipLine =
          ⟨position + Bytes.lineLength text, text.drop (Bytes.lineLength text)⟩ := rfl
      have hshort : (text.drop (Bytes.lineLength text)).length ≤ rounds := by
        rw [List.length_drop]
        omega
      rw [if_neg (by simp [Cursor.isEnd, hne]), List.mem_cons, hskip, ih hshort]
      constructor
      · rintro (rfl | ⟨before, rest, hsplit, hrest, hbreak, rfl⟩)
        · exact ⟨[], text, rfl, hne, Or.inl rfl, rfl⟩
        · have hdrop : text.drop (Bytes.lineLength text) ≠ [] := by
            rw [hsplit]
            simp [hrest]
          have hlen : (text.take (Bytes.lineLength text)).length = Bytes.lineLength text := by
            rw [List.length_take, Nat.min_eq_left]
            rw [ne_eq, List.drop_eq_nil_iff] at hdrop
            omega
          refine ⟨text.take (Bytes.lineLength text) ++ before, rest, ?_, hrest,
            Bytes.lineBreak_of_drop hsplit hrest hbreak, ?_⟩
          · rw [List.append_assoc, ← hsplit, List.take_append_drop]
          · rw [List.length_append, hlen, Nat.add_assoc]
      · rintro ⟨before, rest, rfl, hrest, hbreak, rfl⟩
        by_cases hb : before = []
        · subst hb
          exact Or.inl rfl
        · right
          have hle := Bytes.lineLength_le hbreak hb
          refine ⟨before.drop (Bytes.lineLength (before ++ rest)), rest, ?_, hrest,
            Bytes.lineBreak_drop hbreak _, ?_⟩
          · rw [List.drop_append_of_le_length hle]
          · rw [List.length_drop]
            congr 1
            omega

/-- The lines of a document are those that begin where a line can begin. -/
theorem mem_lines {file : Bytes} {l : Nat × Bytes} :
    l ∈ lines file ↔
      ∃ before rest, file = before ++ rest ∧ rest ≠ [] ∧ Bytes.LineBreak before rest ∧
        l = (before.length, Bytes.line rest) := by
  unfold lines Cursor.start
  rw [mem_linesFrom (Nat.le_refl _)]
  simp only [Nat.zero_add]

end ScanIndex

end CrossReference
