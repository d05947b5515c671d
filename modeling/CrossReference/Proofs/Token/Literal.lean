import CrossReference.Proofs.Token.Words

set_option autoImplicit false

/-! # Literal strings

A byte of a literal string can be written in several ways (`WritesByte`), and the bytes of a string
each in its own way, with line continuations between them and with parentheses that balance left as
they are (`WritesString`). Each way of writing takes the reader from plain mode back to plain mode
with that byte added, so it does not matter what stands next to it (`stringRest_byte`). What is
between balanced parentheses is read one level deeper and ends on the level where it began, which
the induction on the way of writing carries along (`stringRest_written`). The reader counts the
levels in a word, so the induction also carries that the word has room for those that are left.
`token_literal` puts the outermost parentheses around. -/

namespace CrossReference.Token

/-! ## Ways of writing -/

/-- The bytes that cannot stand for themselves wherever they are: parentheses and backslash. -/
def isSpecial (b : UInt8) : Bool := b = 0x28 || b = 0x29 || b = 0x5C

/-- The letters of escapes, with the bytes that they stand for: line feed, carriage return, tab,
    backspace and form feed. -/
def letterEscapes : List (UInt8 × UInt8) :=
  [(0x6E, 0x0A), (0x72, 0x0D), (0x74, 0x09), (0x62, 0x08), (0x66, 0x0C)]

/-- The number that three octal digits write. -/
def octalValue (high middle low : UInt8) : Nat :=
  (Decimal.digitValue high * 8 + Decimal.digitValue middle) * 8 + Decimal.digitValue low

/-- The ways of writing one byte. Octal digits count modulo 256. -/
inductive WritesByte (b : UInt8) : Bytes → Prop
  | itself (h : isSpecial b = false) : WritesByte b [b]
  | escaped (h : isSpecial b = true) : WritesByte b [0x5C, b]
  | letter {c : UInt8} (h : (c, b) ∈ letterEscapes) : WritesByte b [0x5C, c]
  | octal {high middle low : UInt8} (hhigh : Byte.isOctal high = true)
      (hmiddle : Byte.isOctal middle = true) (hlow : Byte.isOctal low = true)
      (h : UInt8.ofNat (octalValue high middle low) = b) :
      WritesByte b [0x5C, high, middle, low]

/-- The ways of writing the bytes of a string between its parentheses, with others that balance at
    most so many levels deep. -/
inductive WritesString : (levels : Nat) → Bytes → Bytes → Prop
  | nil {levels : Nat} : WritesString levels [] []
  | byte {levels : Nat} {b : UInt8} {bytes text rest : Bytes} (h : WritesByte b text)
      (hrest : WritesString levels bytes rest) : WritesString levels (b :: bytes) (text ++ rest)
  | continued {levels : Nat} {lineEnd bytes rest : Bytes}
      (h : lineEnd = [0x0A] ∨ lineEnd = [0x0D, 0x0A]) (hrest : WritesString levels bytes rest) :
      WritesString levels bytes (0x5C :: (lineEnd ++ rest))
  | balanced {levels : Nat} {inner text bytes rest : Bytes} (h : WritesString levels inner text)
      (hrest : WritesString (levels + 1) bytes rest) :
      WritesString (levels + 1) (0x28 :: (inner ++ 0x29 :: bytes)) (0x28 :: (text ++ 0x29 :: rest))

/-! ## Steps -/

theorem stringRest_step {s s' : StringState} {b : UInt8} (h : s.step b = s') (hopen : 0 < s'.depth)
    (n : Nat) (rest : Bytes) : stringRest s n (b :: rest) = stringRest s' (n + 1) rest := by
  rw [stringRest, h]
  exact if_pos (decide_eq_true hopen)

namespace StringState

variable (acc : Bytes) (depth : Int32)

theorem step_itself {b : UInt8} (h : isSpecial b = false) :
    step ⟨acc, depth, .plain⟩ b = ⟨b :: acc, depth, .plain⟩ := by
  simp only [isSpecial, Bool.or_eq_false_iff, decide_eq_false_iff_not] at h
  show plainStep ⟨acc, depth, .plain⟩ b = _
  unfold plainStep
  rw [if_neg h.2, if_neg h.1.1, if_neg h.1.2]
  rfl

theorem step_backslash : step ⟨acc, depth, .plain⟩ 0x5C = ⟨acc, depth, .escape⟩ := rfl

theorem step_escaped {b : UInt8} (h : isSpecial b = true) :
    step ⟨acc, depth, .escape⟩ b = ⟨b :: acc, depth, .plain⟩ := by
  simp only [isSpecial, Bool.or_eq_true, decide_eq_true_eq] at h
  rcases h with (rfl | rfl) | rfl <;> rfl

theorem step_letter {b c : UInt8} (h : (c, b) ∈ letterEscapes) :
    step ⟨acc, depth, .escape⟩ c = ⟨b :: acc, depth, .plain⟩ := by
  simp only [letterEscapes, List.mem_cons, Prod.mk.injEq, List.not_mem_nil, or_false] at h
  rcases h with ⟨rfl, rfl⟩ | ⟨rfl, rfl⟩ | ⟨rfl, rfl⟩ | ⟨rfl, rfl⟩ | ⟨rfl, rfl⟩ <;> rfl

/-- The first digit behind a backslash: no letter of an escape is a digit, and no line end. -/
theorem step_octal {b : UInt8} (h : Byte.isOctal b = true) :
    step ⟨acc, depth, .escape⟩ b = ⟨acc, depth, .octal (Decimal.digitValue b) 2⟩ := by
  have hother : ∀ c : UInt8, Byte.isOctal c = false → b ≠ c := by
    rintro c hc rfl
    rw [h] at hc
    cases hc
  show escapeStep ⟨acc, depth, .escape⟩ b = _
  unfold escapeStep
  rw [if_neg (hother _ (by decide)), if_neg (hother _ (by decide)), if_neg (hother _ (by decide)),
    if_neg (hother _ (by decide)), if_neg (hother _ (by decide)), if_neg (hother _ (by decide)),
    if_neg (hother _ (by decide)), if_pos h]

theorem step_second {b : UInt8} (h : Byte.isOctal b = true) (value : Nat) :
    step ⟨acc, depth, .octal value 2⟩ b =
      ⟨acc, depth, .octal (value * 8 + Decimal.digitValue b) 1⟩ := by
  unfold step
  dsimp only
  rw [if_pos h]

/-- The third digit is the last one, whatever comes behind it. -/
theorem step_third {b : UInt8} (h : Byte.isOctal b = true) (value : Nat) :
    step ⟨acc, depth, .octal value 1⟩ b =
      ⟨UInt8.ofNat (value * 8 + Decimal.digitValue b) :: acc, depth, .plain⟩ := by
  unfold step
  dsimp only
  rw [if_pos h]
  rfl

theorem step_feed : step ⟨acc, depth, .escape⟩ 0x0A = ⟨acc, depth, .plain⟩ := rfl

theorem step_return : step ⟨acc, depth, .escape⟩ 0x0D = ⟨acc, depth, .carriage⟩ := rfl

theorem step_return_feed : step ⟨acc, depth, .carriage⟩ 0x0A = ⟨acc, depth, .plain⟩ := rfl

theorem step_open :
    step ⟨acc, depth, .plain⟩ 0x28 = ⟨0x28 :: acc, depth + 1, .plain⟩ := rfl

/-- A parenthesis that is not the last one belongs to the string. -/
theorem step_close {depth : Int32} (hopen : 0 < depth) :
    step ⟨acc, depth + 1, .plain⟩ 0x29 = ⟨0x29 :: acc, depth, .plain⟩ := by
  show close ⟨acc, depth + 1, .plain⟩ = _
  unfold close
  dsimp only
  rw [Int32.add_sub_cancel, if_pos hopen]
  rfl

theorem step_last : step ⟨acc, 1, .plain⟩ 0x29 = ⟨acc, 0, .plain⟩ := by
  have hlast : (1 : Int32) - 1 = 0 := by decide
  show close ⟨acc, 1, .plain⟩ = _
  unfold close
  dsimp only
  rw [hlast, if_neg (by decide)]

end StringState

open StringState

/-- The count of parentheses is a word, and while it has room it counts them. -/
theorem toInt_succ {depth : Int32} (hopen : 0 < depth)
    (room : depth.toInt + 1 ≤ Decimal.maxSigned32) : (depth + 1).toInt = depth.toInt + 1 := by
  unfold Decimal.maxSigned32 at room
  have hpositive : 0 < depth.toInt := Int32.lt_iff_toInt_lt.mp hopen
  rw [Int32.toInt_add, Int32.toInt_one]
  exact Int.bmod_eq_of_le (by omega) (by omega)

/-! ## Runs -/

section Runs

variable {depth : Int32} (hopen : 0 < depth)
include hopen

/-- A byte is added, whichever way it is written, and the reader is in plain mode again. -/
theorem stringRest_byte {b : UInt8} {text : Bytes} (h : WritesByte b text) (acc : Bytes) (n : Nat)
    (rest : Bytes) :
    stringRest ⟨acc, depth, .plain⟩ n (text ++ rest) =
      stringRest ⟨b :: acc, depth, .plain⟩ (n + text.length) rest := by
  cases h with
  | itself h => exact stringRest_step (step_itself acc depth h) hopen n rest
  | escaped h =>
    show stringRest _ n (0x5C :: b :: rest) = _
    rw [stringRest_step (step_backslash acc depth) hopen,
      stringRest_step (step_escaped acc depth h) hopen]
    rfl
  | @letter c h =>
    show stringRest _ n (0x5C :: c :: rest) = _
    rw [stringRest_step (step_backslash acc depth) hopen,
      stringRest_step (step_letter acc depth h) hopen]
    rfl
  | @octal high middle low hhigh hmiddle hlow h =>
    show stringRest _ n (0x5C :: high :: middle :: low :: rest) = _
    rw [stringRest_step (step_backslash acc depth) hopen,
      stringRest_step (step_octal acc depth hhigh) hopen,
      stringRest_step (step_second acc depth hmiddle _) hopen,
      stringRest_step (step_third acc depth hlow _) hopen, ← h]
    rfl

/-- A line continuation adds nothing. -/
theorem stringRest_continued {lineEnd : Bytes} (h : lineEnd = [0x0A] ∨ lineEnd = [0x0D, 0x0A])
    (acc : Bytes) (n : Nat) (rest : Bytes) :
    stringRest ⟨acc, depth, .plain⟩ n (0x5C :: (lineEnd ++ rest)) =
      stringRest ⟨acc, depth, .plain⟩ (n + (lineEnd.length + 1)) rest := by
  rw [stringRest_step (step_backslash acc depth) hopen]
  rcases h with rfl | rfl
  · exact stringRest_step (step_feed acc depth) hopen (n + 1) rest
  · show stringRest _ (n + 1) (0x0D :: 0x0A :: rest) = _
    rw [stringRest_step (step_return acc depth) hopen,
      stringRest_step (step_return_feed acc depth) hopen]
    rfl

end Runs

/-- The bytes that a text writes are added, and the reader is on the level again where it was. -/
theorem stringRest_written {levels : Nat} {bytes text : Bytes}
    (h : WritesString levels bytes text) (acc : Bytes) {depth : Int32} (hopen : 0 < depth)
    (room : depth.toInt + levels ≤ Decimal.maxSigned32) (n : Nat) (rest : Bytes) :
    stringRest ⟨acc, depth, .plain⟩ n (text ++ rest) =
      stringRest ⟨bytes.reverse ++ acc, depth, .plain⟩ (n + text.length) rest := by
  induction h generalizing acc depth n rest with
  | nil => rfl
  | @byte levels b bytes text tail h _ ih =>
    rw [List.append_assoc, stringRest_byte hopen h, ih _ hopen room, List.reverse_cons,
      List.append_assoc, List.length_append, Nat.add_assoc]
    rfl
  | @continued levels lineEnd bytes tail h _ ih =>
    rw [List.cons_append, List.append_assoc, stringRest_continued hopen h, ih _ hopen room,
      List.length_cons, List.length_append]
    congr 1
    omega
  | @balanced levels inner text bytes tail _ _ ihinner ihrest =>
    -- the inner text is read one level deeper, with one level less that is left
    have hdeeper := toInt_succ hopen (by omega)
    have hopen' : 0 < depth + 1 := by
      rw [Int32.lt_iff_toInt_lt] at hopen ⊢
      exact Int.lt_trans hopen (by omega)
    rw [List.cons_append, List.append_assoc, List.cons_append,
      stringRest_step (step_open acc depth) hopen', ihinner _ hopen' (by omega),
      stringRest_step (step_close _ hopen) hopen, ihrest _ hopen room]
    simp only [List.reverse_cons, List.reverse_append, List.append_assoc, List.cons_append,
      List.nil_append, List.length_cons, List.length_append]
    congr 1
    omega

/-! ## The token -/

/-- A literal string with its parentheses. -/
def literalText (text : Bytes) : Bytes := 0x28 :: (text ++ [0x29])

end Token

open Token

/-- The string `a(`, line feed, `(b)A1`. -/
def Token.mixedBytes : Bytes := [0x61, 0x28, 0x0A, 0x28, 0x62, 0x29, 0x41, 0x31]

/-- The same string with every way of writing: behind `a` an escaped parenthesis, a continuation, a
    letter escape, parentheses that balance, an octal escape with a digit behind it that stands for
    itself, and a continuation over two bytes. -/
def Token.mixedText : Bytes :=
  [0x61, 0x5C, 0x28, 0x5C, 0x0A, 0x5C, 0x6E, 0x28, 0x62, 0x29, 0x5C, 0x31, 0x30, 0x31, 0x31, 0x5C,
    0x0D, 0x0A]

end CrossReference
