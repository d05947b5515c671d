import CrossReference.Byte

set_option autoImplicit false

/-! # Compressed data, bit by bit

Compressed data is a sequence of bits, each byte giving its least significant bit first. A
`BitReader` takes bits from the front and writes bytes behind what it wrote before. When it stops
early, the bytes written so far are still there; whether the data only ended or broke a rule is told
apart. -/

namespace CrossReference.Filter

/-- Why decompression stopped early. -/
inductive Stop where
  /-- The data ended. -/
  | truncated
  /-- The data broke a rule of its format. -/
  | corrupt
deriving DecidableEq, Repr

/-- The bits not read yet, and the bytes written so far. -/
structure BitState where
  bytes : Bytes
  /-- How many bits of the first byte are used up, less than eight. -/
  used : Nat := 0
  out : Array UInt8 := #[]

namespace BitState

/-- How many bits are left. -/
def remaining (s : BitState) : Nat := 8 * s.bytes.length - s.used

/-- The state at the next byte's start. -/
def align (s : BitState) : BitState :=
  if s.used = 0 then s else { s with bytes := s.bytes.drop 1, used := 0 }

end BitState

/-- A computation that reads bits and writes bytes. -/
abbrev BitReader := EStateM Stop BitState

namespace BitReader

/-- Reads a bit. -/
def bit : BitReader Nat := fun s =>
  match s.bytes with
  | [] => .error .truncated s
  | b :: rest =>
    let value := (b.toNat >>> s.used) % 2
    if s.used < 7 then .ok value { s with used := s.used + 1 }
    else .ok value { s with bytes := rest, used := 0 }

/-- Reads a number of so many bits, least significant bit first. -/
def bits : Nat → BitReader Nat
  | 0 => return 0
  | n + 1 => do
    let low ← bit
    let high ← bits n
    return low + 2 * high

/-- Passes over the rest of a byte of which some bits are read. -/
def align : BitReader Unit := modify BitState.align

/-- Writes a byte. -/
def emit (b : UInt8) : BitReader Unit := modify fun s => { s with out := s.out.push b }

/-- Writes bytes once more that stand `distance` before the end of those written, one after the
    other, so that bytes written on the way can be among them. In front of the first byte stand
    zeros. -/
def copy (distance : Nat) : Nat → BitReader Unit
  | 0 => return ()
  | length + 1 => do
    let out := (← get).out
    emit (if distance ≤ out.size then out.getD (out.size - distance) 0 else 0)
    copy distance length

/-- Runs a loop that takes a bit in every round with as many rounds as there are bits. -/
def rounds {α : Type} (loop : Nat → BitReader α) : BitReader α := fun s => loop s.remaining s

end BitReader

end CrossReference.Filter
