import CrossReference.Filter.Ascii
import CrossReference.Filter.Inflate

set_option autoImplicit false

/-! # Compressed streams

A compressed stream is a header of two bytes, compressed blocks, and a checksum of what they stand
for. A damaged stream still gives the part that was decompressed: data that ends early gives what
could be decompressed up to there, and data that breaks a rule gives the windows that were handed
out before. Without any such part it is an error. The writer makes stored blocks, which need no
compression to be valid. -/

namespace CrossReference.Filter

/-! ## Checksum -/

/-- The modulus of the checksum, the greatest prime below `2 ^ 16`. -/
def checksumModulus : Nat := 65521

/-- The two sums of a checksum: of the bytes, and of the first sum after each byte. -/
def checksumSums (data : Bytes) : Nat × Nat :=
  data.foldl (fun (a, b) byte =>
    let a := (a + byte.toNat) % checksumModulus
    (a, (b + a) % checksumModulus)) (1, 0)

/-- The checksum of data, a word of 32 bits. -/
def checksum (data : Bytes) : Nat :=
  let (a, b) := checksumSums data
  b * 65536 + a

/-! ## Reading -/

/-- Whether two bytes are the header of a compressed stream: method eight, a window of at most 32768
    bytes, no preset dictionary, and together a multiple of 31. -/
def isFlateHeader (method flags : Nat) : Bool :=
  method % 16 = 8 && method / 16 ≤ 7 && flags / 32 % 2 = 0 && (method * 256 + flags) % 31 = 0

/-- Reads a number of four bytes, most significant byte first. -/
def word32 : BitReader Nat := do
  let a ← BitReader.bits 8
  let b ← BitReader.bits 8
  let c ← BitReader.bits 8
  let d ← BitReader.bits 8
  return ((a * 256 + b) * 256 + c) * 256 + d

/-- Reads a compressed stream. -/
def flateStream : BitReader Unit := do
  let method ← BitReader.bits 8
  let flags ← BitReader.bits 8
  if !isFlateHeader method flags then throw .corrupt
  inflate
  BitReader.align
  let expected ← word32
  let out := (← get).out
  if checksum out.toList ≠ expected then throw .corrupt

/-- How many bytes are decompressed before they are handed out. -/
def windowLength : Nat := 32768

/-- What was handed out of decompressed data when a rule was found broken: all windows but the last
    one, which is lost, be it full or not. -/
def handedOut (out : Bytes) : Bytes := out.take ((out.length - 1) / windowLength * windowLength)

/-- A part of decompressed data, or an error if the part is empty. -/
def salvage (fault : StreamFault) (part : Bytes) : Except StreamFault Bytes :=
  if part.isEmpty then .error fault else .ok part

/-- Decodes a compressed stream. -/
def decodeFlate (data : Bytes) : Except StreamFault Bytes :=
  match flateStream { bytes := data } with
  | .ok _ s => .ok s.out.toList
  | .error .truncated s => salvage .flateIncomplete s.out.toList
  | .error .corrupt s => salvage .flateCorrupt (handedOut s.out.toList)

/-! ## Writing -/

/-- The greatest length of a stored block. -/
def maxStored : Nat := 65535

/-- A stored block, with a mark if it is the last one. -/
def storedBlock (final : Bool) (data : Bytes) : Bytes :=
  let low := data.length % 256
  let high := data.length / 256
  [if final then 1 else 0, UInt8.ofNat low, UInt8.ofNat high, UInt8.ofNat (255 - low),
    UInt8.ofNat (255 - high)] ++ data

/-- Data as stored blocks. -/
def storedBlocks (data : Bytes) : Bytes :=
  if _h : maxStored < data.length then
    storedBlock false (data.take maxStored) ++ storedBlocks (data.drop maxStored)
  else storedBlock true data
termination_by data.length
decreasing_by
  have : 0 < maxStored := by decide
  simp only [List.length_drop]
  omega

/-- Encodes data as a compressed stream. -/
def encodeFlate (data : Bytes) : Bytes :=
  [0x78, 0x01] ++ storedBlocks data ++ Bytes.bigEndian (checksum data) 4

end CrossReference.Filter
