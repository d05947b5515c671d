import CrossReference.Proofs.Bytes.Search
import CrossReference.Proofs.Scan.Headers
import CrossReference.Proofs.Token.Spelled

set_option autoImplicit false

/-! # Two recognisers of object headers

The scan looks for object headers line by line, the reader of tokens reads one from an offset on.
Where only blanks stand in front of a digit on its line, `mem_objects_iff_header` says how far they
agree: on all headers that are spelled plainly. The reader alone accepts a header that goes over
the end of a line, has signs, or has zeros in front that make a number longer than twenty digits;
the scan alone accepts an object number of 64 bits that is too great for a signed word
(`recognisers_differ`). -/

namespace CrossReference

open Bytes (Stops)

/-! ## Runs of digits -/

namespace Bytes

/-- Whether no run of digits in a text is longer than twenty. -/
def ShortRuns (text : Bytes) : Prop :=
  ∀ run, run <:+: text → (∀ b ∈ run, Byte.isDigit b = true) → run.length ≤ 20

/-- A run of digits does not reach over a text behind which it cannot go on. -/
theorem infix_of_infix_append {run xs ys : Bytes} (hrun : ∀ b ∈ run, Byte.isDigit b = true)
    (hstop : Stops Byte.isDigit ys) (h : run <:+: xs ++ ys) : run <:+: xs ∨ run <:+: ys := by
  induction xs with
  | nil => exact Or.inr h
  | cons x xs ih =>
    rw [List.cons_append, List.infix_cons_iff] at h
    rcases h with h | h
    · have hfront : run <+: x :: xs := by
        refine prefix_of_prefix_append (fun b hb hmem => ?_) h
        have hdigit := hrun b hmem
        rw [hstop b hb] at hdigit
        cases hdigit
      exact Or.inl hfront.isInfix
    · exact (ih h).imp_left fun h => h.trans (List.suffix_cons x xs).isInfix

theorem ShortRuns.append {xs ys : Bytes} (hxs : ShortRuns xs) (hys : ShortRuns ys)
    (hstop : Stops Byte.isDigit ys) : ShortRuns (xs ++ ys) := fun run h hrun =>
  (infix_of_infix_append hrun hstop h).elim (hxs run · hrun) (hys run · hrun)

theorem shortRuns_of_length {xs : Bytes} (h : xs.length ≤ 20) : ShortRuns xs :=
  fun _ hin _ => Nat.le_trans hin.length_le h

theorem ShortRuns.white_append {white ys : Bytes} (hw : ∀ b ∈ white, Byte.isWhite b = true)
    (hys : ShortRuns ys) : ShortRuns (white ++ ys) := by
  intro run hin hrun
  induction white with
  | nil => exact hys run hin hrun
  | cons w white ih =>
    rw [List.cons_append, List.infix_cons_iff] at hin
    rcases hin with hfront | hin
    · rcases List.prefix_cons_iff.mp hfront with rfl | ⟨tail, rfl, _⟩
      · exact Nat.zero_le 20
      · have hdigit := hrun w List.mem_cons_self
        rw [Byte.not_isDigit_of_isWhite (hw w List.mem_cons_self)] at hdigit
        cases hdigit
    · exact ih (fun b hb => hw b (List.mem_cons_of_mem w hb)) hin

end Bytes

/-! ## Spelling -/

/-- The bytes of a header as all recognisers accept them: on one line, without signs, and without
    zeros that make a number longer than the longest of 64 bits. -/
structure PlainSpelling (text : Bytes) : Prop where
  one_line : ∀ b ∈ text, Byte.isLineEnd b = false
  unsigned : 0x2B ∉ text ∧ 0x2D ∉ text
  short : Bytes.ShortRuns text

theorem leadsLine_zero (file : Bytes) : LeadsLine file 0 :=
  ⟨[], [], rfl, Or.inl rfl, fun _ hb => (List.not_mem_nil hb).elim, rfl⟩

namespace ScanIndex

variable {file : Bytes} {offset : Nat} {k : Key}

namespace HeaderForm

theorem shortRuns_head (f : HeaderForm) : Bytes.ShortRuns f.head := by
  have hobj : Bytes.ShortRuns Reserved.obj.spelling := Bytes.shortRuns_of_length (by decide)
  have hstop : Stops Byte.isDigit (f.gap ++ Reserved.obj.spelling) :=
    Bytes.stops_digit_of_white f.gap_white (Bytes.stops_cons.mpr (by decide))
  have hgeneration := (Bytes.shortRuns_of_length f.isGeneration.short).append
    (Bytes.ShortRuns.white_append f.gap_white hobj) hstop
  exact (Bytes.shortRuns_of_length f.isNumber.short).append
    (Bytes.ShortRuns.white_append f.space_white hgeneration) (f.stops_digit_space _)

theorem mem_head {f : HeaderForm} {b : UInt8} (h : b ∈ f.head) :
    Byte.isDigit b = true ∨ Byte.isWhite b = true ∨ b ∈ Reserved.obj.spelling := by
  simp only [head, List.mem_append] at h
  rcases h with h | h | h | h | h
  · exact Or.inl (f.isNumber.isDigit b h)
  · exact Or.inr (Or.inl (f.space_white b h))
  · exact Or.inl (f.isGeneration.isDigit b h)
  · exact Or.inr (Or.inl (f.gap_white b h))
  · exact Or.inr (Or.inr h)

/-- What the scan accepts is spelled plainly, if it stands on one line. -/
theorem plainSpelling_head (f : HeaderForm) (hline : ∀ b ∈ f.text, Byte.isLineEnd b = false) :
    PlainSpelling f.head := by
  refine ⟨fun b hb => hline b ?_, ⟨fun hplus => ?_, fun hminus => ?_⟩, f.shortRuns_head⟩
  · rw [← f.head_append_tail]
    exact List.mem_append_left f.tail hb
  · exact absurd (mem_head hplus) (by decide)
  · exact absurd (mem_head hminus) (by decide)

end HeaderForm

/-- An integer without a sign that stands in a plainly spelled header is a number of the scan. -/
theorem numberForm_of_plain {f : Token.IntegerForm} {text : Bytes} {n : Nat}
    (hplain : PlainSpelling text) (hin : f.text <:+: text) (hvalue : f.value = n)
    (hfits : n ≤ Decimal.maxWord64) : f.sign = [] ∧ NumberForm f.digits n := by
  have hsign : f.sign = [] := by
    rcases f.isSign with hsign | hsign | hsign
    · exact hsign
    · refine absurd (hin.subset ?_) hplain.unsigned.1
      simp [Token.IntegerForm.text, hsign]
    · refine absurd (hin.subset ?_) hplain.unsigned.2
      simp [Token.IntegerForm.text, hsign]
  have hdigits : f.digits <:+: f.text :=
    (List.suffix_append_of_suffix (List.suffix_append f.sign f.digits)).isInfix
  refine ⟨hsign, f.isDigit, f.ne_nil, hplain.short _ (hdigits.trans hin) f.isDigit, ?_, hfits⟩
  rw [Token.IntegerForm.value, hsign, if_neg (by decide)] at hvalue
  exact_mod_cast hvalue

/-- What the reader accepts at a digit is a header of the scan, if it is spelled plainly. -/
theorem exists_of_header {text : Bytes} {position : Nat} {c : Cursor}
    (hdigit : ∃ b ∈ text.head?, Byte.isDigit b = true)
    (h : Reader.header ⟨position, text⟩ = .ok k c)
    (hplain : PlainSpelling (text.take (c.position - position))) :
    (∃ f : HeaderForm, f.text = Bytes.line text ∧ f.key = k) ∧
      k.number ≤ Decimal.maxSigned64 := by
  obtain ⟨number, generation, gap, tail, hsplit, hstop, hgap, hends, hnumber, hgeneration,
    hsmall, hfits, rfl⟩ := Reader.header_eq_ok h
  -- the bytes that were taken, and what they leave
  obtain ⟨taken, htaken⟩ : ∃ taken,
      taken = number.text ++ (generation.text ++ (gap ++ Reserved.obj.spelling)) := ⟨_, rfl⟩
  have htext : text = taken ++ tail := by
    rw [htaken]
    simpa only [List.append_assoc] using hsplit
  rw [← htaken, htext, Nat.add_sub_cancel_left, List.take_left] at hplain
  have hfirst : number.text <:+: taken := htaken ▸ (List.prefix_append _ _).isInfix
  have hsecond : generation.text <:+: taken := by
    rw [htaken]
    exact (List.prefix_append _ _).isInfix.trans (List.suffix_append _ _).isInfix
  obtain ⟨hsign, isNumber⟩ := numberForm_of_plain hplain hfirst hnumber
    (Nat.le_trans hsmall (by decide))
  obtain ⟨hsign', isGeneration⟩ := numberForm_of_plain hplain hsecond hgeneration
    (Nat.le_trans hfits (by decide))
  have hwhite : number.white = [] :=
    Token.IntegerForm.white_eq_nil (by rwa [← hsplit])
  have hspace : generation.white ≠ [] := Token.IntegerForm.white_ne_nil hstop hsign'
  have hline : Bytes.line text = taken ++ Bytes.line tail := by
    rw [htext]
    exact List.takeWhile_append_of_pos fun b hb => by rw [hplain.one_line b hb]; rfl
  refine ⟨⟨⟨k, number.digits, generation.white, generation.digits, gap, Bytes.line tail, isNumber,
    generation.isWhite, hspace, isGeneration, hfits, hgap, hends.takeWhile _⟩, ?_, rfl⟩, hsmall⟩
  rw [hline, htaken]
  simp [HeaderForm.text, HeaderForm.ending, Token.IntegerForm.text, hwhite, hsign, hsign']

/-- Where only blanks stand in front of a digit on its line, the scan finds the headers that are
    spelled plainly, and no others. -/
theorem mem_objects_iff_header (hline : LeadsLine file offset)
    (hdigit : ∃ b ∈ (file.drop offset).head?, Byte.isDigit b = true) :
    ((k, offset) ∈ (scan file).objects ∧ k.number ≤ Decimal.maxSigned64) ↔
      ∃ c, Reader.header ⟨offset, file.drop offset⟩ = .ok k c ∧
        PlainSpelling ((file.drop offset).take (c.position - offset)) := by
  rw [mem_objects_scan, marker_iff_leadsLine, and_iff_right hline]
  constructor
  · rintro ⟨⟨f, hf, rfl⟩, hsmall⟩
    -- the same header with the rest of the document behind it
    obtain ⟨g, hg, hkey, hhead⟩ : ∃ g : HeaderForm,
        g.text = file.drop offset ∧ g.key = f.key ∧ g.head = f.head :=
      ⟨f.extend (stops_regular_behind_line (file.drop offset)),
        by rw [HeaderForm.text_extend, hf, line_append_drop], rfl, rfl⟩
    have hread := g.header_head (hkey ▸ hsmall) offset
    rw [hg, hkey] at hread
    refine ⟨_, hread, ?_⟩
    rw [Nat.add_sub_cancel_left, ← hg, ← g.head_append_tail, List.take_left, hhead]
    refine f.plainSpelling_head fun b hb => ?_
    rw [hf] at hb
    simpa using List.all_eq_true.mp List.all_takeWhile b hb
  · rintro ⟨c, hheader, hplain⟩
    exact exists_of_header hdigit hheader hplain

/-- A header behind a blank on the second line, with a gap in front of the keyword. -/
theorem blank_line_agrees :
    LeadsLine (ascii "%\n 07 0  obj<<") 3 ∧
      ∃ c, Reader.header ⟨3, (ascii "%\n 07 0  obj<<").drop 3⟩ = .ok ⟨7, 0⟩ c ∧
        PlainSpelling (((ascii "%\n 07 0  obj<<").drop 3).take (c.position - 3)) := by
  have hline : LeadsLine (ascii "%\n 07 0  obj<<") 3 :=
    ⟨ascii "%\n", [0x20], by decide, Or.inr (Or.inl (by decide)),
      List.forall_mem_singleton.mpr rfl, by decide⟩
  exact ⟨hline, (mem_objects_iff_header hline ⟨0x30, by decide, by decide⟩).mp
    ⟨by decide, by decide⟩⟩

/-- The reader alone accepts a header over two lines, with a sign, and with twenty zeros in front.
    The scan alone accepts a number of 64 bits that is no integer. -/
theorem recognisers_differ :
    (∀ text ∈ [ascii "1\n0 obj", ascii "1 +0 obj", ascii "000000000000000000001 0 obj"],
      LeadsLine text 0 ∧ (∃ c, Reader.header ⟨0, text⟩ = .ok ⟨1, 0⟩ c) ∧
        (⟨1, 0⟩, 0) ∉ (scan text).objects) ∧
    LeadsLine (ascii "18446744073709551615 0 obj") 0 ∧
    (⟨18446744073709551615, 0⟩, 0) ∈ (scan (ascii "18446744073709551615 0 obj")).objects ∧
    ∀ k c, Reader.header ⟨0, ascii "18446744073709551615 0 obj"⟩ ≠ .ok k c := by
  refine ⟨List.forall_mem_cons.mpr ⟨⟨leadsLine_zero _, ⟨_, rfl⟩, by decide⟩,
    List.forall_mem_cons.mpr ⟨⟨leadsLine_zero _, ⟨_, rfl⟩, by decide⟩,
      List.forall_mem_singleton.mpr ⟨leadsLine_zero _, ⟨_, rfl⟩, by decide⟩⟩⟩,
    leadsLine_zero _, by decide, ?_⟩
  intro k c h
  cases h

end ScanIndex

end CrossReference
