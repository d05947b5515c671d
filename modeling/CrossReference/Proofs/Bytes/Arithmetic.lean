import CrossReference.Proofs.Bytes.Word
import CrossReference.Word

set_option autoImplicit false

/-! # Arithmetic in words

What is computed with natural numbers elsewhere is computed here step by step in words of 64 bits.
Numbers of at most eight bytes are written and read in words (`writeField_eq`, `readField_eq`), and
the bytes that a word needs are counted in words (`bytesNeeded_eq`), with the same results. -/

namespace CrossReference.Word

/-! ## Many steps -/

section Many

variable {α β : Type}

theorem mapM_eq_some {f : α → Option β} {g : α → β} {items : List α}
    (h : ∀ x ∈ items, f x = some (g x)) : items.mapM f = some (items.map g) := by
  induction items with
  | nil => rfl
  | cons x rest ih =>
    rw [List.mapM_cons, h x List.mem_cons_self, ih fun y hy => h y (List.mem_cons_of_mem _ hy)]
    rfl

variable (value : α → Nat)

theorem le_foldl_add (items : List α) (n : Nat) : n ≤ items.foldl (fun n x => n + value x) n := by
  induction items generalizing n with
  | nil => exact Nat.le_refl n
  | cons x rest ih => exact Nat.le_trans (Nat.le_add_right n (value x)) (ih (n + value x))

/-- Words can be added one after the other just if the whole sum is a word. -/
theorem foldlM_add (items : List α) {n : Nat} (h : n ≤ Decimal.maxWord64) :
    items.foldlM (fun n x => add n (value x)) n =
      ofNat (items.foldl (fun n x => n + value x) n) := by
  induction items generalizing n with
  | nil => exact (if_pos h).symm
  | cons x rest ih =>
    rw [List.foldlM_cons, List.foldl_cons]
    by_cases hword : n + value x ≤ Decimal.maxWord64
    · rw [add_of_le hword]
      exact ih hword
    · have hsum := le_foldl_add value rest (n + value x)
      rw [add_eq_none.mpr (Nat.not_le.mp hword)]
      exact (if_neg (by omega)).symm

end Many

/-! ## The bytes of a word -/

/-- How many of the lowest `n` bits of a number are zero, counted from the highest of them on. -/
def leadingZeros (value : Nat) : (n : Nat) → Nat
  | 0 => 0
  | n + 1 => if value.testBit n then 0 else leadingZeros value n + 1

/-- How many bytes a word needs. -/
def bytesNeeded (value : Nat) : Option Nat := do
  divCeil (← sub bits (leadingZeros value bits)) 8

theorem leadingZeros_zero (n : Nat) : leadingZeros 0 n = n := by
  induction n with
  | zero => rfl
  | succ n ih => simp [leadingZeros, ih]

/-- The bits behind the leading zeros are those up to the highest one. -/
theorem leadingZeros_add_log2 {value n : Nat} (hzero : value ≠ 0) (h : value < 2 ^ n) :
    leadingZeros value n + (value.log2 + 1) = n := by
  induction n with
  | zero => omega
  | succ n ih =>
    unfold leadingZeros
    split
    · rename_i hbit
      have hle : 2 ^ n ≤ value := Nat.ge_two_pow_of_testBit hbit
      have hlog : value.log2 = n := (Nat.log2_eq_iff hzero).mpr ⟨hle, h⟩
      omega
    · rename_i hbit
      have hlt : value < 2 ^ n := Nat.not_le.mp fun hle =>
        hbit (Nat.testBit_of_two_pow_le_and_two_pow_add_one_gt hle h)
      have hbelow := ih hlt
      omega

theorem divCeil_log2 {log : Nat} (h : log < bits) : divCeil (log + 1) 8 = some (log / 8 + 1) := by
  unfold bits at h
  unfold divCeil
  split
  · exact congrArg some (by omega)
  · rw [add_of_le (by unfold Decimal.maxWord64; omega)]
    exact congrArg some (by omega)

theorem bytesNeeded_eq {value : Nat} (h : value ≤ Decimal.maxWord64) :
    bytesNeeded value = some (Bytes.width value) := by
  unfold bytesNeeded Bytes.width
  split
  · rename_i hzero
    rw [hzero, leadingZeros_zero]
    rfl
  · rename_i hzero
    have hbits : value < 2 ^ bits := Nat.lt_of_le_of_lt h (by decide)
    have hlog : value.log2 < bits := (Nat.log2_lt hzero).mpr hbits
    have hsub : sub bits (leadingZeros value bits) = some (value.log2 + 1) := by
      have hsum := leadingZeros_add_log2 hzero hbits
      rw [sub_of_le (by omega)]
      exact congrArg some (by omega)
    rw [hsub]
    exact divCeil_log2 hlog

/-! ## Fields -/

/-- Writes the last bytes of a word, most significant byte first. -/
def writeField (value : Nat) : (width : Nat) → Option Bytes
  | 0 => some []
  | i + 1 => do
    let byte ← shiftRight value (← mul i 8)
    return UInt8.ofNat byte :: (← writeField value i)

/-- The word with one more byte behind its own. -/
def snoc (value : Nat) (b : UInt8) : Option Nat := do return (← shiftLeft value 8) ||| b.toNat

/-- Reads bytes as a word, most significant byte first. -/
def readField (bytes : Bytes) : Option Nat := bytes.foldlM snoc 0

theorem writeField_eq (value : Nat) {width : Nat} (h : width ≤ 8) :
    writeField value width = some (Bytes.bigEndian value width) := by
  induction width with
  | zero => rfl
  | succ i ih =>
    have hplaces : mul i 8 = some (i * 8) := mul_of_le (by unfold Decimal.maxWord64; omega)
    have hshift : shiftRight value (i * 8) = some (value >>> (i * 8)) :=
      if_pos (by unfold bits; omega)
    rw [writeField, hplaces, Option.bind_eq_bind, Option.bind_some, hshift, ih (by omega),
      Bytes.bigEndian_succ]
    rfl

theorem snoc_eq {value width : Nat} (h : value < 256 ^ width) (hwidth : width < 8) (b : UInt8) :
    snoc value b = some (value * 256 + b.toNat) := by
  have hwide : value * 256 < 256 ^ 8 :=
    calc value * 256
      _ < 256 ^ width * 256 := Nat.mul_lt_mul_of_pos_right h (by decide)
      _ = 256 ^ (width + 1) := (Nat.pow_succ ..).symm
      _ ≤ 256 ^ 8 := Nat.pow_le_pow_right (by decide) hwidth
  have hshift : shiftLeft value 8 = some (value <<< 8) := by
    unfold shiftLeft
    rw [if_pos (by decide), Nat.shiftLeft_eq]
    exact if_pos (by unfold Decimal.maxWord64; omega)
  have hor : value <<< 8 ||| b.toNat = value * 256 + b.toNat := by
    rw [← Nat.shiftLeft_add_eq_or_of_lt b.toNat_lt, Nat.shiftLeft_eq]
  rw [snoc, hshift, ← hor]
  rfl

theorem readField_eq {bytes : Bytes} (h : bytes.length ≤ 8) :
    readField bytes = some (Bytes.toNat bytes) := by
  induction bytes using List.reverseRecOn with
  | nil => rfl
  | append_singleton bytes b ih =>
    rw [List.length_append, List.length_singleton] at h
    have hvalue := Bytes.toNat_lt bytes
    unfold readField at ih ⊢
    rw [List.foldlM_append, ih (by omega), Bytes.toNat_snoc, Option.bind_eq_bind, Option.bind_some,
      List.foldlM_cons, snoc_eq hvalue h b]
    rfl

end CrossReference.Word
