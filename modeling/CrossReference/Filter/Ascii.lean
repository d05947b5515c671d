import CrossReference.Bytes.Word
import CrossReference.Decimal.Numeral
import CrossReference.Error

set_option autoImplicit false

/-! # Filters that write bytes as characters

Two encodings of bytes in printable characters: hexadecimal digits, two for a byte, and digits of
base 85, five for four bytes. Both ignore white space and stop at a mark of their own, `>` and `~`;
what stands behind the mark does not matter. -/

namespace CrossReference.Filter

/-! ## Hexadecimal digits -/

/-- The digits before the end mark, behind those in `acc`, last digit first. -/
def hexDigitsFrom (acc : List UInt8) : Bytes → Except StreamFault (List UInt8)
  | [] => .ok acc.reverse
  | b :: rest =>
    if b = 0x3E then .ok acc.reverse
    else if Byte.isWhite b then hexDigitsFrom acc rest
    else
      match Byte.hexValue? b with
      | some digit => hexDigitsFrom (digit :: acc) rest
      | none => .error (.hexDigit b)

/-- Decodes hexadecimal digits. -/
def decodeAsciiHex (data : Bytes) : Except StreamFault Bytes :=
  (hexDigitsFrom [] data).map Bytes.ofHexDigits

/-! ## Digits of base 85 -/

/-- The number that digits of base 85 write, the first digit being `!`. -/
def base85Value (digits : Bytes) : Nat := digits.foldl (fun n b => n * 85 + (b.toNat - 0x21)) 0

/-- The four bytes that five digits stand for. -/
def base85Group (digits : Bytes) : Except StreamFault Bytes :=
  let value := base85Value digits
  if value ≤ Decimal.maxWord32 then .ok (Bytes.bigEndian value 4) else .error .ascii85Overflow

/-- Ends the decoding with an incomplete group. Its missing digits count as the greatest ones, and
    as many bytes are dropped as digits are missing. -/
def finishBase85 (acc group : Bytes) : Except StreamFault Bytes :=
  match group with
  | [] => .ok acc.reverse
  | [_] => .error .ascii85Tail
  | _ => do
    let bytes ← base85Group (group.reverse ++ List.replicate (5 - group.length) 0x75)
    return acc.reverse ++ bytes.take (group.length - 1)

/-- Decodes digits of base 85, behind the bytes in `acc` and the digits in `group`, both with the
    last one first. Between groups, `z` stands for four zero bytes. -/
def base85From (acc group : Bytes) : Bytes → Except StreamFault Bytes
  | [] => finishBase85 acc group
  | b :: rest =>
    if Byte.isWhite b then base85From acc group rest
    else if b = 0x7E then finishBase85 acc group
    else if b = 0x7A && group.isEmpty then base85From (0 :: 0 :: 0 :: 0 :: acc) [] rest
    else if 0x21 ≤ b && b ≤ 0x75 then
      if group.length < 4 then base85From acc (b :: group) rest
      else
        match base85Group (b :: group).reverse with
        | .ok bytes => base85From (bytes.reverse ++ acc) [] rest
        | .error fault => .error fault
    else .error (.ascii85Byte b)

/-- Decodes digits of base 85, with or without the mark `<~` in front. -/
def decodeAscii85 : Bytes → Except StreamFault Bytes
  | 0x3C :: 0x7E :: rest => base85From [] [] rest
  | data => base85From [] [] data

end CrossReference.Filter
