import CrossReference.Bytes.Word
import Mathlib.Algebra.Group.Nat.Defs
import Mathlib.Data.List.Induction

set_option autoImplicit false

/-! # Bytes as numbers

Bytes are the digits of a number in base 256. They are read back from it (`bigEndian_toNat`), zeros
behind them multiply it, and the bytes in front are those of a quotient. -/

namespace CrossReference.Bytes

theorem toNat_lt (bytes : Bytes) : toNat bytes < 256 ^ bytes.length := by
  induction bytes using List.reverseRecOn with
  | nil => decide
  | append_singleton bytes b ih =>
    have hb := b.toNat_lt
    rw [toNat_snoc, List.length_append, List.length_singleton, Nat.pow_succ]
    omega

theorem toNat_append_zeros (bytes : Bytes) (m : Nat) :
    toNat (bytes ++ List.replicate m 0) = toNat bytes * 256 ^ m := by
  induction m with
  | zero => simp
  | succ m ih =>
    rw [List.replicate_succ', ← List.append_assoc, toNat_snoc, ih, Nat.pow_succ, Nat.mul_assoc]
    rfl

/-- Bytes are read back from their number. -/
theorem bigEndian_toNat (bytes : Bytes) : bigEndian (toNat bytes) bytes.length = bytes := by
  induction bytes using List.reverseRecOn with
  | nil => rfl
  | append_singleton bytes b ih =>
    have hb := b.toNat_lt
    have hfront : (toNat bytes * 256 + b.toNat) / 256 = toNat bytes := by omega
    have hlast : UInt8.ofNat (toNat bytes * 256 + b.toNat) = b := by
      rw [← UInt8.toNat_inj, UInt8.toNat_ofNat']
      omega
    rw [toNat_snoc, List.length_append, List.length_singleton, bigEndian, hfront, hlast, ih]

/-- The first bytes of a number are those of its quotient. -/
theorem take_bigEndian (value n m : Nat) :
    (bigEndian value (n + m)).take n = bigEndian (value / 256 ^ m) n := by
  induction m generalizing value with
  | zero => simp [List.take_of_length_le]
  | succ m ih =>
    have hle : n ≤ (bigEndian (value / 256) (n + m)).length := by
      rw [length_bigEndian]
      exact Nat.le_add_right n m
    rw [← Nat.add_assoc, bigEndian, List.take_append_of_le_length hle, ih, Nat.div_div_eq_div_mul,
      Nat.pow_succ']

/-- The first byte of a number is that of a number shifted behind the others. -/
theorem bigEndian_succ (value width : Nat) :
    bigEndian value (width + 1) =
      UInt8.ofNat (value >>> (width * 8)) :: bigEndian value width := by
  induction width generalizing value with
  | zero => rfl
  | succ width ih =>
    have hquotient : (value / 256) >>> (width * 8) = value >>> ((width + 1) * 8) := by
      rw [Nat.succ_mul, Nat.add_comm, Nat.shiftRight_add, Nat.shiftRight_eq_div_pow value 8]
    rw [bigEndian, ih, hquotient]
    rfl

end CrossReference.Bytes
