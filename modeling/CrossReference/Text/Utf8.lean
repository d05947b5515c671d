import CrossReference.Byte

set_option autoImplicit false

/-! # UTF-8

Decoding goes from character to character. Where no character can be read, the longest start of one
that stands there counts as a single fault: a lead byte with as many of its continuation bytes as
are in order, or else one byte. The strict reading refuses a text with a fault; the lossy one puts
the replacement character in its place. -/

namespace CrossReference.Text.Utf8

/-- What a lead byte says: how many bytes follow it, the bounds of the first of those, and its own
    share of the code point. The bounds keep out overlong forms, surrogates and code points above
    U+10FFFF. -/
structure Lead where
  more : Nat
  low : UInt8
  high : UInt8
  share : Nat

/-- Reads a lead byte of a character of two to four bytes. -/
def lead? (b : UInt8) : Option Lead :=
  if 0xC2 ≤ b && b ≤ 0xDF then some ⟨1, 0x80, 0xBF, b.toNat % 32⟩
  else if b = 0xE0 then some ⟨2, 0xA0, 0xBF, b.toNat % 16⟩
  else if b = 0xED then some ⟨2, 0x80, 0x9F, b.toNat % 16⟩
  else if 0xE1 ≤ b && b ≤ 0xEF then some ⟨2, 0x80, 0xBF, b.toNat % 16⟩
  else if b = 0xF0 then some ⟨3, 0x90, 0xBF, b.toNat % 8⟩
  else if 0xF1 ≤ b && b ≤ 0xF3 then some ⟨3, 0x80, 0xBF, b.toNat % 8⟩
  else if b = 0xF4 then some ⟨3, 0x80, 0x8F, b.toNat % 8⟩
  else none

/-- Reads the continuation bytes still owed, after `taken` bytes that gave `code` so far. -/
def continuation (code taken : Nat) : Nat → Bytes → Option Char × Nat
  | 0, _ => (some (Char.ofNat code), taken)
  | _ + 1, [] => (none, taken)
  | more + 1, b :: rest =>
    if 0x80 ≤ b && b ≤ 0xBF then continuation (code * 64 + b.toNat % 64) (taken + 1) more rest
    else (none, taken)

/-- The character at the front, or none for a fault, and how many bytes it takes. -/
def head (b : UInt8) (rest : Bytes) : Option Char × Nat :=
  if b < 0x80 then (some (latin1Char b), 1)
  else
    match lead? b, rest with
    | some lead, c :: rest =>
      if lead.low ≤ c && c ≤ lead.high then
        continuation (lead.share * 64 + c.toNat % 64) 2 (lead.more - 1) rest
      else (none, 1)
    | _, _ => (none, 1)

/-- The characters of a text and its faults, in order. The first `skip` bytes belong to a character
    that was read already. -/
def decodeFrom (skip : Nat) : Bytes → List (Option Char)
  | [] => []
  | b :: rest =>
    match skip with
    | skip + 1 => decodeFrom skip rest
    | 0 =>
      let (c, taken) := head b rest
      c :: decodeFrom (taken - 1) rest

/-- The characters of a text that holds no fault. -/
def decode? (text : Bytes) : Option (List Char) := (decodeFrom 0 text).mapM id

/-- The characters of a text, with the replacement character for each fault. -/
def decodeLossy (text : Bytes) : List Char := (decodeFrom 0 text).map (·.getD '\uFFFD')

end CrossReference.Text.Utf8
