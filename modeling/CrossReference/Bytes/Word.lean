import CrossReference.Byte

set_option autoImplicit false

/-! # Numbers as bytes

Fixed-width numbers are written most significant byte first. The width zero is a width too: such a
field takes no bytes and holds zero. -/

namespace CrossReference.Bytes

/-- The last `width` bytes of a number, most significant byte first. -/
def bigEndian (value : Nat) : (width : Nat) → Bytes
  | 0 => []
  | width + 1 => bigEndian (value / 256) width ++ [UInt8.ofNat value]

/-- The number that bytes write, most significant byte first. -/
def toNat (bytes : Bytes) : Nat := bytes.foldl (fun n b => n * 256 + b.toNat) 0

/-- How many bytes a number needs; zero needs none. -/
def width (value : Nat) : Nat := if value = 0 then 0 else value.log2 / 8 + 1

@[simp] theorem length_bigEndian (value width : Nat) : (bigEndian value width).length = width := by
  induction width generalizing value with
  | zero => rfl
  | succ width ih => simp [bigEndian, ih]

theorem toNat_snoc (bytes : Bytes) (b : UInt8) :
    toNat (bytes ++ [b]) = toNat bytes * 256 + b.toNat :=
  List.foldl_append

/-- A number is read back from as many bytes as hold it; of a greater one the rest is lost. -/
theorem toNat_bigEndian (value width : Nat) :
    toNat (bigEndian value width) = value % Nat.pow 256 width := by
  induction width generalizing value with
  | zero => simp [bigEndian, toNat, Nat.mod_one]
  | succ width ih =>
    have hpow : Nat.pow 256 (width + 1) = 256 * Nat.pow 256 width := Nat.pow_succ'
    rw [bigEndian, toNat_snoc, ih, UInt8.toNat_ofNat', hpow, Nat.mod_mul]
    omega

end CrossReference.Bytes
