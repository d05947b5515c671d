import CrossReference.Bytes.Line

set_option autoImplicit false

/-! # Runs of bytes

Readers take the longest run of bytes of a class. A run is known once it is known where it stops:
`takeWhile_run` and `dropWhile_run` split a text that is written as a run and a rest with which the
run cannot go on. -/

namespace CrossReference.Bytes

variable {p : UInt8 → Bool} {run rest : Bytes}

/-- A text that does not begin with a byte of a class. -/
def Stops (p : UInt8 → Bool) (text : Bytes) : Prop := ∀ b ∈ text.head?, p b = false

theorem stops_nil : Stops p [] := fun b hb => by cases hb

theorem stops_cons {b : UInt8} : Stops p (b :: rest) ↔ p b = false := by
  simp [Stops]

theorem stops_append (h : Stops p run) (h' : Stops p rest) : Stops p (run ++ rest) := by
  cases run with
  | nil => exact h'
  | cons b run => exact stops_cons.mpr (stops_cons.mp h)

theorem stops_append_of_ne_nil (h : Stops p run) (hne : run ≠ []) : Stops p (run ++ rest) := by
  cases run with
  | nil => exact absurd rfl hne
  | cons b run => exact stops_cons.mpr (stops_cons.mp h)

theorem stops_of_forall (h : ∀ b ∈ run, p b = false) : Stops p run :=
  fun b hb => h b (List.mem_of_mem_head? hb)

/-- No word begins with white space, and none begins behind it if none could without it. -/
theorem stops_regular_of_white {white : Bytes} (hw : ∀ b ∈ white, Byte.isWhite b = true)
    (hrest : Stops Byte.isRegular rest) : Stops Byte.isRegular (white ++ rest) :=
  stops_append (stops_of_forall fun b hb => by simp [Byte.isRegular, hw b hb]) hrest

/-- A text that stops for a class stops for every class inside it. -/
theorem Stops.mono {q : UInt8 → Bool} (h : Stops p rest) (hpq : ∀ b, q b = true → p b = true) :
    Stops q rest := by
  intro b hb
  cases hq : q b with
  | false => rfl
  | true =>
    have hp := h b hb
    rw [hpq b hq] at hp
    cases hp

theorem takeWhile_run (hrun : ∀ b ∈ run, p b = true) (hrest : Stops p rest) :
    (run ++ rest).takeWhile p = run := by
  rw [List.takeWhile_append_of_pos hrun]
  cases rest with
  | nil => rw [List.takeWhile_nil, List.append_nil]
  | cons b rest =>
    rw [List.takeWhile_cons, stops_cons.mp hrest]
    simp only [Bool.false_eq_true, if_false, List.append_nil]

theorem dropWhile_run (hrun : ∀ b ∈ run, p b = true) (hrest : Stops p rest) :
    (run ++ rest).dropWhile p = rest := by
  rw [List.dropWhile_append_of_pos hrun]
  cases rest with
  | nil => rfl
  | cons b rest =>
    rw [List.dropWhile_cons, stops_cons.mp hrest]
    simp only [Bool.false_eq_true, if_false]

theorem stops_dropWhile (p : UInt8 → Bool) (text : Bytes) : Stops p (text.dropWhile p) := by
  intro b hb
  have h := List.head?_dropWhile_not p text
  rw [Option.mem_def.mp hb] at h
  simpa using h

theorem Stops.takeWhile {text : Bytes} (h : Stops p text) (q : UInt8 → Bool) :
    Stops p (text.takeWhile q) := by
  cases text with
  | nil => exact h
  | cons b text =>
    rw [List.takeWhile_cons]
    split
    · exact stops_cons.mpr (stops_cons.mp h)
    · exact stops_nil

theorem drop_length_takeWhile (p : UInt8 → Bool) (text : Bytes) :
    text.drop (text.takeWhile p).length = text.dropWhile p := by
  have h : (text.takeWhile p ++ text.dropWhile p).drop (text.takeWhile p).length =
      text.dropWhile p := List.drop_left
  rwa [List.takeWhile_append_dropWhile] at h

/-- Every text is a run of a class and a rest with which the run cannot go on. -/
theorem exists_run (p : UInt8 → Bool) (text : Bytes) :
    ∃ run rest, text = run ++ rest ∧ (∀ b ∈ run, p b = true) ∧ Stops p rest :=
  ⟨text.takeWhile p, text.dropWhile p, List.takeWhile_append_dropWhile.symm,
    List.all_eq_true.mp List.all_takeWhile, stops_dropWhile p text⟩

/-- A run that is not empty begins with a byte of its class. -/
theorem exists_cons_of_run (hrun : ∀ b ∈ run, p b = true) (hne : run ≠ []) :
    ∃ b rest, run = b :: rest ∧ p b = true := by
  obtain ⟨b, rest, rfl⟩ := List.exists_cons_of_ne_nil hne
  exact ⟨b, rest, rfl, hrun b List.mem_cons_self⟩

/-- A run that a byte stops is the same whether this byte follows or nothing. -/
theorem takeWhile_append_cons {b : UInt8} (hb : p b = false) (text rest : Bytes) :
    (text ++ b :: rest).takeWhile p = text.takeWhile p := by
  obtain ⟨run, tail, rfl, hrun, hstop⟩ := exists_run p text
  have hstop' : Stops p (tail ++ b :: rest) := stops_append hstop (stops_cons.mpr hb)
  rw [List.append_assoc, takeWhile_run hrun hstop', takeWhile_run hrun hstop]

theorem drop_append_of_le {n : Nat} {text : Bytes} (h : n ≤ text.length) (rest : Bytes) :
    (text ++ rest).drop n = text.drop n ++ rest := List.drop_append_of_le_length h

/-- Texts that are not empty take at least as many bytes as there are of them. -/
theorem length_le_flatMap_of_mem {α : Type} {text : α → Bytes} {xs : List α}
    (h : ∀ a ∈ xs, text a ≠ []) : xs.length ≤ (xs.flatMap text).length := by
  induction xs with
  | nil => exact Nat.le_refl 0
  | cons a xs ih =>
    obtain ⟨ha, hxs⟩ := List.forall_mem_cons.mp h
    have hpos := List.length_pos_iff.mpr ha
    have hle := ih hxs
    rw [List.flatMap_cons, List.length_append, List.length_cons]
    omega

theorem length_le_flatMap {α : Type} {text : α → Bytes} (h : ∀ a, text a ≠ []) (xs : List α) :
    xs.length ≤ (xs.flatMap text).length := length_le_flatMap_of_mem fun a _ => h a

end CrossReference.Bytes
