import CrossReference.Proofs.Scan.Grammar
import CrossReference.Proofs.Token.Words

set_option autoImplicit false

/-! # Object headers as tokens

What the scan accepts as an object header, the reader of tokens reads as one, with the same key, as
long as the object number has the size of an integer. If it is greater, nothing is read. -/

namespace CrossReference

namespace ScanIndex.HeaderForm

open Bytes (Stops)

theorem stopsNumber_space (f : HeaderForm) (rest : Bytes) :
    Token.StopsNumber (f.space ++ rest) := by
  refine ⟨f.stops_digit_space rest, ?_⟩
  cases hs : f.space with
  | nil => exact absurd hs f.space_ne_nil
  | cons b space =>
    have hb := f.space_white b (by rw [hs]; exact List.mem_cons_self)
    refine Bytes.stops_cons.mpr (decide_eq_false ?_)
    rintro rfl
    exact absurd hb (by decide)

theorem stopsNumber_ending (f : HeaderForm) : Token.StopsNumber f.ending := by
  refine ⟨f.stops_digit_ending, ?_⟩
  unfold ending
  cases hg : f.gap with
  | nil => exact Bytes.stops_cons.mpr (by decide)
  | cons b gap =>
    have hb := f.gap_white b (by rw [hg]; exact List.mem_cons_self)
    refine Bytes.stops_cons.mpr (decide_eq_false ?_)
    rintro rfl
    exact absurd hb (by decide)

/-- The header itself, without what follows it. -/
def head (f : HeaderForm) : Bytes :=
  f.number ++ (f.space ++ (f.generation ++ (f.gap ++ Reserved.obj.spelling)))

theorem head_append_tail (f : HeaderForm) : f.head ++ f.tail = f.text := by
  simp only [head, text, ending, List.append_assoc]

/-- A header that the scan accepts is read as one, with the same key, and no further. -/
theorem header_head (f : HeaderForm) (hnumber : f.key.number ≤ Decimal.maxSigned64)
    (position : Nat) :
    Reader.header ⟨position, f.text⟩ = .ok f.key ⟨position + f.head.length, f.tail⟩ := by
  have hgeneration : f.key.generation ≤ Decimal.maxSigned64 :=
    Nat.le_trans f.generation_fits (by decide)
  -- the parts are read one after the other, each up to the next
  have hfirst := Reader.integer_digits Byte.nil_white f.isNumber.isDigit f.isNumber.ne_nil
    (f.stopsNumber_space (f.generation ++ f.ending)) (f.isNumber.value ▸ hnumber) position
  have hsecond := Reader.integer_digits f.space_white f.isGeneration.isDigit f.isGeneration.ne_nil
    f.stopsNumber_ending (f.isGeneration.value ▸ hgeneration)
  have hobj := Reader.expect_spelling .obj f.gap_white f.ends
  rw [List.nil_append, f.isNumber.value] at hfirst
  rw [f.isGeneration.value] at hsecond
  have hread := Reader.header_of_parts f.generation_fits hfirst (hsecond _) (hobj _)
  simp only [head, text, List.length_append]
  simpa only [List.length_nil, Nat.zero_add, Nat.add_assoc] using hread

theorem header_text (f : HeaderForm) (hnumber : f.key.number ≤ Decimal.maxSigned64)
    (position : Nat) :
    ∃ c, Reader.header ⟨position, f.text⟩ = .ok f.key c :=
  ⟨_, f.header_head hnumber position⟩

/-- A header with too great a number is not read. -/
theorem header_text_of_lt (f : HeaderForm) (hnumber : Decimal.maxSigned64 < f.key.number)
    (position : Nat) : ∃ e c, Reader.header ⟨position, f.text⟩ = .error e c := by
  have hscan := Token.scan_digits_of_lt f.isNumber.isDigit f.isNumber.ne_nil
    (f.stopsNumber_space (f.generation ++ f.ending)) (f.isNumber.value ▸ hnumber)
  obtain ⟨e, c, htoken⟩ : ∃ e c, Reader.token ⟨position, f.text⟩ = .error e c := by
    unfold Reader.token text
    rw [hscan]
    exact ⟨_, _, rfl⟩
  have hinteger : Reader.integer ⟨position, f.text⟩ = .error e c := bind_of_error htoken
  unfold Reader.header
  dsimp only
  rw [bind_of_error hinteger]
  exact ⟨e, c, rfl⟩

end ScanIndex.HeaderForm

end CrossReference
