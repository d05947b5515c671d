import CrossReference.Proofs.Bytes.Runs
import CrossReference.Scan

set_option autoImplicit false

/-! # The grammar of a scanned line

What the scan accepts on a line, said by the parts of the line instead of the steps of the scan. A
`HeaderForm` is an object header in its parts, each with the proof that it is well formed, and
`leadingHeader?_eq_some` says that the scan accepts these and no others. -/

namespace CrossReference

namespace Byte

theorem isWhite_of_isLineEnd {b : UInt8} (h : isLineEnd b = true) : isWhite b = true := by
  simp only [isLineEnd, Bool.or_eq_true, decide_eq_true_eq] at h
  rcases h with rfl | rfl <;> decide

theorem not_isDigit_of_isWhite {b : UInt8} (h : isWhite b = true) : isDigit b = false := by
  simp only [isWhite, Bool.or_eq_true, decide_eq_true_eq] at h
  rcases h with ((((rfl | rfl) | rfl) | rfl) | rfl) | rfl <;> decide

theorem not_isRegular_of_isWhite {b : UInt8} (h : isWhite b = true) : isRegular b = false := by
  simp [isRegular, h]

end Byte

namespace Bytes

theorem startsBoundary_iff {text : Bytes} :
    startsBoundary text = true ↔ Stops Byte.isRegular text := by
  cases text with
  | nil => simp [startsBoundary, stops_nil]
  | cons b rest => simp [startsBoundary, stops_cons]

/-- A run of white space that is not empty, or else what follows it, begins with no digit. -/
theorem stops_digit_of_white {white rest : Bytes} (hw : ∀ b ∈ white, Byte.isWhite b = true)
    (hrest : Stops Byte.isDigit rest) : Stops Byte.isDigit (white ++ rest) :=
  stops_append (stops_of_forall fun b hb => Byte.not_isDigit_of_isWhite (hw b hb)) hrest

end Bytes

namespace ScanIndex

open Bytes (Stops)

/-! ## Numbers -/

/-- A run of one to twenty digits, writing a number that 64 bits hold. -/
structure NumberForm (digits : Bytes) (n : Nat) : Prop where
  isDigit : ∀ b ∈ digits, Byte.isDigit b = true
  ne_nil : digits ≠ []
  short : digits.length ≤ 20
  value : Decimal.ofDigits digits = n
  fits : n ≤ Decimal.maxWord64

theorem leadingNumber?_eq_some {text rest : Bytes} {n : Nat} :
    leadingNumber? text = some (n, rest) ↔
      ∃ digits, text = digits ++ rest ∧ NumberForm digits n ∧ Stops Byte.isDigit rest := by
  constructor
  · intro h
    unfold leadingNumber? at h
    rw [Option.ite_none_left_eq_some] at h
    obtain ⟨hok, h⟩ := h
    simp only [Bool.or_eq_true, decide_eq_true_eq, not_or, List.isEmpty_iff, Nat.not_lt] at hok
    rw [Option.some.injEq, Prod.mk.injEq, Bytes.drop_length_takeWhile] at h
    obtain ⟨hvalue, rfl⟩ := h
    refine ⟨text.takeWhile Byte.isDigit, List.takeWhile_append_dropWhile.symm, ?_,
      Bytes.stops_dropWhile _ text⟩
    exact ⟨List.all_eq_true.mp List.all_takeWhile, hok.1.1, hok.1.2, hvalue, hvalue ▸ hok.2⟩
  · rintro ⟨digits, rfl, form, hstop⟩
    unfold leadingNumber?
    dsimp only
    rw [Bytes.takeWhile_run form.isDigit hstop, form.value, List.drop_left]
    have hempty : digits.isEmpty = false := by simp [form.ne_nil]
    simp [hempty, Nat.not_lt.mpr form.short, Nat.not_lt.mpr form.fits]

/-! ## Words -/

theorem afterWord?_eq_some {word text rest : Bytes} :
    afterWord? word text = some rest ↔ text = word ++ rest ∧ Stops Byte.isRegular rest := by
  unfold afterWord?
  rw [Option.ite_none_right_eq_some, List.isPrefixOf_iff_prefix]
  constructor
  · rintro ⟨⟨more, rfl⟩, h⟩
    rw [List.drop_left, Option.ite_none_right_eq_some, Option.some.injEq] at h
    obtain ⟨hstop, rfl⟩ := h
    exact ⟨rfl, Bytes.startsBoundary_iff.mp hstop⟩
  · rintro ⟨rfl, hstop⟩
    refine ⟨List.prefix_append word rest, ?_⟩
    rw [List.drop_left, if_pos (Bytes.startsBoundary_iff.mpr hstop)]

theorem beginsTable_iff {text : Bytes} :
    beginsTable text = true ↔
      ∃ rest, text = Reserved.xref.spelling ++ rest ∧ Stops Byte.isRegular rest := by
  unfold beginsTable
  rw [Option.isSome_iff_exists]
  exact exists_congr fun _ => afterWord?_eq_some

/-! ## Headers -/

/-- An object header in its parts: a number, white space, a generation, perhaps more white space,
    and the keyword `obj`, which ends there. -/
structure HeaderForm where
  key : Key
  number : Bytes
  space : Bytes
  generation : Bytes
  gap : Bytes
  tail : Bytes
  isNumber : NumberForm number key.number
  space_white : ∀ b ∈ space, Byte.isWhite b = true
  space_ne_nil : space ≠ []
  isGeneration : NumberForm generation key.generation
  generation_fits : key.generation ≤ Decimal.maxWord32
  gap_white : ∀ b ∈ gap, Byte.isWhite b = true
  ends : Stops Byte.isRegular tail

namespace HeaderForm

/-- What stands behind the generation. -/
def ending (f : HeaderForm) : Bytes := f.gap ++ (Reserved.obj.spelling ++ f.tail)

/-- The text of a header. -/
def text (f : HeaderForm) : Bytes := f.number ++ (f.space ++ (f.generation ++ f.ending))

theorem stops_digit_ending (f : HeaderForm) : Stops Byte.isDigit f.ending :=
  Bytes.stops_digit_of_white f.gap_white (Bytes.stops_cons.mpr (by decide))

theorem stops_white_obj (f : HeaderForm) :
    Stops Byte.isWhite (Reserved.obj.spelling ++ f.tail) := Bytes.stops_cons.mpr (by decide)

theorem stops_white_generation (f : HeaderForm) :
    Stops Byte.isWhite (f.generation ++ f.ending) := by
  cases hg : f.generation with
  | nil => exact absurd hg f.isGeneration.ne_nil
  | cons b rest =>
    have hb : Byte.isDigit b = true :=
      f.isGeneration.isDigit b (by rw [hg]; exact List.mem_cons_self)
    refine Bytes.stops_cons.mpr ?_
    cases hw : Byte.isWhite b with
    | false => rfl
    | true =>
      rw [Byte.not_isDigit_of_isWhite hw] at hb
      cases hb

theorem stops_digit_space (f : HeaderForm) (rest : Bytes) :
    Stops Byte.isDigit (f.space ++ rest) := by
  cases hs : f.space with
  | nil => exact absurd hs f.space_ne_nil
  | cons b space =>
    exact Bytes.stops_cons.mpr
      (Byte.not_isDigit_of_isWhite (f.space_white b (by rw [hs]; exact List.mem_cons_self)))

end HeaderForm

theorem exists_form_of_leadingHeader? {text : Bytes} {k : Key} (h : leadingHeader? text = some k) :
    ∃ f : HeaderForm, f.text = text ∧ f.key = k := by
  unfold leadingHeader? at h
  obtain ⟨⟨number, rest⟩, hnumber, h⟩ := Option.bind_eq_some_iff.mp h
  simp only [Option.bind_eq_bind, Option.bind_none, Option.ite_none_right_eq_some] at h
  obtain ⟨hspace, h⟩ := h
  obtain ⟨⟨generation, rest'⟩, hgeneration, h⟩ := Option.bind_eq_some_iff.mp h
  obtain ⟨tail, hobj, h⟩ := Option.bind_eq_some_iff.mp h
  rw [Option.ite_none_right_eq_some, Option.some.injEq] at h
  obtain ⟨hfits, rfl⟩ := h
  obtain ⟨digits, rfl, isNumber, hstop⟩ := leadingNumber?_eq_some.mp hnumber
  obtain ⟨digits', hsplit, isGeneration, hstop'⟩ := leadingNumber?_eq_some.mp hgeneration
  obtain ⟨hsplit', ends⟩ := afterWord?_eq_some.mp hobj
  refine ⟨⟨⟨number, generation⟩, digits, rest.takeWhile Byte.isWhite, digits',
    rest'.takeWhile Byte.isWhite, tail, isNumber, List.all_eq_true.mp List.all_takeWhile, ?_,
    isGeneration, hfits, List.all_eq_true.mp List.all_takeWhile, ends⟩, ?_, rfl⟩
  · -- the byte that was looked at belongs to the white space
    intro hnil
    have hhead := List.head?_takeWhile (p := Byte.isWhite) (l := rest)
    rw [hnil] at hhead
    cases hr : rest.head? with
    | none => rw [hr] at hspace; cases hspace
    | some b =>
      rw [hr] at hhead hspace
      simp only [Option.any_some] at hspace
      simp [Option.filter, hspace] at hhead
  · unfold HeaderForm.text HeaderForm.ending
    dsimp only
    rw [← hsplit', List.takeWhile_append_dropWhile, ← hsplit, List.takeWhile_append_dropWhile]

theorem leadingHeader?_text (f : HeaderForm) : leadingHeader? f.text = some f.key := by
  have hnumber : leadingNumber? f.text =
      some (f.key.number, f.space ++ (f.generation ++ f.ending)) :=
    leadingNumber?_eq_some.mpr ⟨f.number, rfl, f.isNumber, f.stops_digit_space _⟩
  have hgeneration : leadingNumber? (f.generation ++ f.ending) =
      some (f.key.generation, f.ending) :=
    leadingNumber?_eq_some.mpr ⟨f.generation, rfl, f.isGeneration, f.stops_digit_ending⟩
  have hobj : afterWord? Reserved.obj.spelling (Reserved.obj.spelling ++ f.tail) = some f.tail :=
    afterWord?_eq_some.mpr ⟨rfl, f.ends⟩
  have hspace : (f.space ++ (f.generation ++ f.ending)).head?.any Byte.isWhite = true := by
    cases hs : f.space with
    | nil => exact absurd hs f.space_ne_nil
    | cons b space =>
      have hb := f.space_white b (by rw [hs]; exact List.mem_cons_self)
      simpa using hb
  unfold leadingHeader?
  rw [hnumber, Option.bind_eq_bind, Option.bind_some]
  dsimp only
  rw [if_pos hspace, Bytes.dropWhile_run f.space_white f.stops_white_generation, hgeneration,
    Option.bind_eq_bind, Option.bind_some]
  dsimp only
  rw [HeaderForm.ending, Bytes.dropWhile_run f.gap_white f.stops_white_obj, hobj,
    Option.bind_some, if_pos f.generation_fits]

/-- The scan accepts a text exactly if it begins with an object header. -/
theorem leadingHeader?_eq_some {text : Bytes} {k : Key} :
    leadingHeader? text = some k ↔ ∃ f : HeaderForm, f.text = text ∧ f.key = k := by
  constructor
  · exact exists_form_of_leadingHeader?
  · rintro ⟨f, rfl, rfl⟩
    exact leadingHeader?_text f

end ScanIndex

end CrossReference
