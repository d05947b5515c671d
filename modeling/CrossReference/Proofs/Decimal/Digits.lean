import CrossReference.Decimal.Numeral
import Mathlib.Algebra.Group.Nat.Defs

set_option autoImplicit false

/-! # Numbers as digits

How a number is written: by its decimal digits, or by so many digits with zeros in front. Either way
it is read back. -/

namespace CrossReference.Decimal

/-- The digits of a number, without zeros in front. -/
def digits (n : Nat) : Bytes := (Nat.toDigits 10 n).map Char.toUInt8

/-- A number in so many digits, with zeros in front as needed. -/
def padded (width n : Nat) : Bytes :=
  List.replicate (width - (digits n).length) 0x30 ++ digits n

/-- What the characters of digits are as bytes. -/
theorem toNat_toUInt8 {c : Char} (h : c.isDigit = true) : c.toUInt8.toNat = c.toNat := by
  have hle : c.toNat ≤ 57 := by
    rw [Char.isDigit, Bool.and_eq_true, decide_eq_true_eq, decide_eq_true_eq] at h
    exact UInt32.le_iff_toNat_le.mp h.2
  change (UInt8.ofNat c.toNat).toNat = c.toNat
  rw [UInt8.toNat_ofNat']
  omega

theorem isDigit_toUInt8 {c : Char} (h : c.isDigit = true) : Byte.isDigit c.toUInt8 = true := by
  have hbyte := toNat_toUInt8 h
  rw [Char.isDigit, Bool.and_eq_true, decide_eq_true_eq, decide_eq_true_eq] at h
  have hlow : 48 ≤ c.toNat := UInt32.le_iff_toNat_le.mp h.1
  have hhigh : c.toNat ≤ 57 := UInt32.le_iff_toNat_le.mp h.2
  rw [Byte.isDigit, Bool.and_eq_true, decide_eq_true_eq, decide_eq_true_eq, UInt8.le_iff_toNat_le,
    UInt8.le_iff_toNat_le, hbyte]
  exact ⟨hlow, hhigh⟩

theorem isDigit_digits {n : Nat} : ∀ b ∈ digits n, Byte.isDigit b = true := by
  intro b hb
  obtain ⟨c, hc, rfl⟩ := List.mem_map.mp hb
  exact isDigit_toUInt8 (Nat.isDigit_of_mem_toDigits (by decide) (by decide) hc)

theorem digits_ne_nil (n : Nat) : digits n ≠ [] := by
  unfold digits
  rw [ne_eq, List.map_eq_nil_iff]
  exact Nat.toDigits_ne_nil

theorem ofDigits_digits (n : Nat) : ofDigits (digits n) = n := by
  have hfold : ∀ (cs : List Char), (∀ c ∈ cs, c.isDigit = true) → ∀ init : Nat,
      (cs.map Char.toUInt8).foldl (fun n b => n * 10 + digitValue b) init =
        Nat.ofDigitChars 10 cs init := by
    intro cs hcs
    induction cs with
    | nil => intro init; simp
    | cons c rest ih =>
      intro init
      have hvalue : digitValue c.toUInt8 = c.toNat - '0'.toNat := by
        rw [digitValue, toNat_toUInt8 (hcs c List.mem_cons_self)]
        rfl
      rw [List.map_cons, List.foldl_cons, Nat.ofDigitChars_cons, hvalue, Nat.mul_comm init 10]
      exact ih (fun c hc => hcs c (List.mem_cons_of_mem _ hc)) _
  have hread := hfold (Nat.toDigits 10 n)
    (fun c hc => Nat.isDigit_of_mem_toDigits (by decide) (by decide) hc) 0
  rw [Nat.ofDigitChars_ten_toDigits] at hread
  exact hread

theorem length_digits_le {width n : Nat} (hwidth : 0 < width) (h : n < 10 ^ width) :
    (digits n).length ≤ width := by
  rw [digits, List.length_map]
  exact (Nat.length_toDigits_le_iff (by decide) hwidth).mpr h

theorem length_padded {width n : Nat} (hwidth : 0 < width) (h : n < 10 ^ width) :
    (padded width n).length = width := by
  have hle := length_digits_le hwidth h
  rw [padded, List.length_append, List.length_replicate]
  omega

theorem isDigit_padded {width n : Nat} : ∀ b ∈ padded width n, Byte.isDigit b = true := by
  intro b hb
  rcases List.mem_append.mp hb with hb | hb
  · rw [List.eq_of_mem_replicate hb]
    decide
  · exact isDigit_digits b hb

theorem padded_ne_nil (width n : Nat) : padded width n ≠ [] := by
  intro h
  exact digits_ne_nil n (List.append_eq_nil_iff.mp h).2

/-- Zeros in front do not change a number. -/
theorem ofDigits_padded (width n : Nat) : ofDigits (padded width n) = n := by
  have hzeros : ∀ count,
      ofDigits (List.replicate count 0x30 ++ digits n) = ofDigits (digits n) := by
    intro count
    induction count with
    | zero => rfl
    | succ count ih => exact ih
  rw [padded, hzeros, ofDigits_digits]

end CrossReference.Decimal
