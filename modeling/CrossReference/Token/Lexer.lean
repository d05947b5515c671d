import CrossReference.Error
import CrossReference.Bytes.Line
import CrossReference.Decimal.Numeral

set_option autoImplicit false

/-! # Reading tokens

`Token.scan` reads one token at the front of a text. It answers with the token, or with what is
wrong, and in either case with the number of bytes it took: white space in front counts, and a
reader that goes on after a fault goes on behind those bytes. Each kind of token has a reader of its
own, a recursion on the text that counts what it takes, so no reader can look back or stand still.
-/

namespace CrossReference

/-- What a reader made of the front of a text, and how many bytes it took. -/
abbrev Taken (α : Type) := Except SyntaxFault α × Nat

namespace Token

/-! ## Names -/

/-- Reads the rest of a name, whose bytes so far are `acc`, last byte first, after `n` bytes. A
    number sign takes the two bytes behind it, whatever they are. -/
def nameRest (acc : Bytes) (n : Nat) : Bytes → Taken Name
  | [] => (.ok ⟨acc.reverse⟩, n)
  | b :: rest =>
    if !Byte.isRegular b then (.ok ⟨acc.reverse⟩, n)
    else if b = 0x23 then
      match rest with
      | [] => (.error .nameEscape, n + 1)
      | [_] => (.error .nameEscape, n + 2)
      | high :: low :: rest =>
        match Byte.hexValue? high, Byte.hexValue? low with
        | some high, some low => nameRest ((high * 16 + low) :: acc) (n + 3) rest
        | _, _ => (.error .nameEscape, n + 3)
    else nameRest (b :: acc) (n + 1) rest

/-! ## Literal strings -/

/-- Where a literal string stands between two bytes. -/
inductive StringMode where
  /-- The next byte stands for itself, or opens or closes, or begins an escape. -/
  | plain
  /-- A backslash was read. -/
  | escape
  /-- An octal escape with this value so far, which may take so many digits more. -/
  | octal (value : Nat) (more : Nat)
  /-- An escaped carriage return was read; a line feed behind it belongs to it. -/
  | carriage
deriving DecidableEq, Repr

/-- A literal string being read: its bytes so far, last byte first, how many parentheses are open,
    and the mode. The count is a signed word of 32 bits, which wraps around. -/
structure StringState where
  acc : Bytes := []
  depth : Int32 := 1
  mode : StringMode := .plain
deriving DecidableEq, Repr

namespace StringState

/-- Whether the string goes on. -/
def isOpen (s : StringState) : Bool := 0 < s.depth

/-- Adds a byte to the string and goes on plainly. -/
def push (s : StringState) (b : UInt8) : StringState :=
  { s with acc := b :: s.acc, mode := .plain }

/-- Closes a parenthesis. The last one does not belong to the string. -/
def close (s : StringState) : StringState :=
  let outer := s.depth - 1
  if 0 < outer then { s.push 0x29 with depth := outer }
  else { s with depth := outer, mode := .plain }

/-- What a byte does in plain mode. -/
def plainStep (s : StringState) (b : UInt8) : StringState :=
  if b = 0x5C then { s with mode := .escape }
  else if b = 0x28 then { s.push b with depth := s.depth + 1 }
  else if b = 0x29 then s.close
  else s.push b

/-- What a byte does behind a backslash. A line end is a continuation and adds nothing; a byte
    without a meaning of its own stands for itself. -/
def escapeStep (s : StringState) (b : UInt8) : StringState :=
  if b = 0x6E then s.push 0x0A
  else if b = 0x72 then s.push 0x0D
  else if b = 0x74 then s.push 0x09
  else if b = 0x62 then s.push 0x08
  else if b = 0x66 then s.push 0x0C
  else if b = 0x0D then { s with mode := .carriage }
  else if b = 0x0A then { s with mode := .plain }
  else if Byte.isOctal b then { s with mode := .octal (Decimal.digitValue b) 2 }
  else s.push b

/-- What a byte does. An octal escape ends at its third digit or before a byte that is none; its
    value counts modulo 256. -/
def step (s : StringState) (b : UInt8) : StringState :=
  match s.mode with
  | .plain => s.plainStep b
  | .escape => s.escapeStep b
  | .octal value more =>
    if Byte.isOctal b then
      let value := value * 8 + Decimal.digitValue b
      match more with
      | more + 2 => { s with mode := .octal value (more + 1) }
      | _ => s.push (UInt8.ofNat value)
    else (s.push (UInt8.ofNat value)).plainStep b
  | .carriage =>
    if b = 0x0A then { s with mode := .plain } else { s with mode := .plain }.plainStep b

end StringState

/-- Reads the rest of a literal string after `n` bytes. -/
def stringRest (s : StringState) (n : Nat) : Bytes → Taken Bytes
  | [] => (.error .openString, n)
  | b :: rest =>
    let s := s.step b
    if s.isOpen then stringRest s (n + 1) rest else (.ok s.acc.reverse, n + 1)

/-! ## Hexadecimal strings -/

/-- Reads the rest of a hexadecimal string, whose digits so far are `acc`, last digit first, after
    `n` bytes. -/
def hexStringRest (acc : List UInt8) (n : Nat) : Bytes → Taken Bytes
  | [] => (.error .openHexString, n)
  | b :: rest =>
    if b = 0x3E then (.ok (Bytes.ofHexDigits acc.reverse), n + 1)
    else if Byte.isWhite b then hexStringRest acc (n + 1) rest
    else
      match Byte.hexValue? b with
      | some digit => hexStringRest (digit :: acc) (n + 1) rest
      | none => (.error .hexStringDigit, n + 1)

/-! ## Numbers -/

/-- The parts of a number: its sign, the digits before a point, and those behind it if there is one.
    -/
structure Numeral where
  sign : Bytes
  whole : Bytes
  fraction : Option Bytes

namespace Numeral

/-- The longest number at the front of a text. It may lack digits. -/
def front (text : Bytes) : Numeral :=
  let sign := match text with
    | 0x2B :: _ => [0x2B]
    | 0x2D :: _ => [0x2D]
    | _ => []
  let unsigned := text.drop sign.length
  let whole := unsigned.takeWhile Byte.isDigit
  match unsigned.drop whole.length with
  | 0x2E :: rest => ⟨sign, whole, some (rest.takeWhile Byte.isDigit)⟩
  | _ => ⟨sign, whole, none⟩

/-- The bytes of a number. -/
def text (x : Numeral) : Bytes :=
  x.sign ++ x.whole ++
    match x.fraction with
    | none => []
    | some digits => 0x2E :: digits

/-- Whether a number has a minus sign. -/
def isNegative (x : Numeral) : Bool := x.sign = [0x2D]

/-- The token that a number is. Without a point it is an integer of 64 bits. -/
def token (x : Numeral) : Except SyntaxFault Token :=
  match x.fraction with
  | none =>
    let magnitude : Int := Decimal.ofDigits x.whole
    let value := if x.isNegative then -magnitude else magnitude
    if x.whole.isEmpty || !Decimal.fitsSigned64 value then .error (.integerNumber x.text)
    else .ok (.integer value)
  | some digits =>
    if x.whole.isEmpty && digits.isEmpty then .error (.realNumber x.text)
    else
      .ok (.real (.ofDecimal x.isNegative (Decimal.ofDigits (x.whole ++ digits)) digits.length))

end Numeral

/-! ## All tokens -/

/-- Reads the token that begins with a byte, behind which the text goes on with `rest`. -/
def scanFrom (b : UInt8) (rest : Bytes) : Taken Token :=
  if b = 0x25 then
    let text := Bytes.line rest
    (.ok (.comment text), 1 + text.length)
  else if b = 0x2F then
    let (found, n) := nameRest [] 1 rest
    (found.map .name, n)
  else if b = 0x28 then
    let (bytes, n) := stringRest {} 1 rest
    (bytes.map .string, n)
  else if b = 0x3C then
    match rest with
    | 0x3C :: _ => (.ok .dictOpen, 2)
    | _ =>
      let (bytes, n) := hexStringRest [] 1 rest
      (bytes.map .string, n)
  else if b = 0x3E then
    match rest with
    | 0x3E :: _ => (.ok .dictClose, 2)
    | _ => (.error .loneAngle, 1)
  else if b = 0x5B then (.ok .arrayOpen, 1)
  else if b = 0x5D then (.ok .arrayClose, 1)
  else if Byte.isDigit b || b = 0x2B || b = 0x2D || b = 0x2E then
    let number := Numeral.front (b :: rest)
    (number.token, number.text.length)
  else if Byte.isDelimiter b then (.error (.strayDelimiter b), 1)
  else
    let word := b :: rest.takeWhile Byte.isRegular
    (.ok (ofWord word), word.length)

/-- Reads the first token of a text, white space in front of it counted in. -/
def scan (text : Bytes) : Taken Token :=
  let white := (text.takeWhile Byte.isWhite).length
  match text.drop white with
  | [] => (.ok .eof, white)
  | b :: rest =>
    let (token, n) := scanFrom b rest
    (token, white + n)

/-- How many bytes of white space and comments stand at the front of a text. A comment begins with a
    percent sign and ends before the end of its line. -/
def skipLength (inComment : Bool) (n : Nat) : Bytes → Nat
  | [] => n
  | b :: rest =>
    if inComment then skipLength (!Byte.isLineEnd b) (n + 1) rest
    else if Byte.isWhite b then skipLength false (n + 1) rest
    else if b = 0x25 then skipLength true (n + 1) rest
    else n

end Token

end CrossReference
