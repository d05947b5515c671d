import CrossReference.Proofs.Decimal.Digits
import CrossReference.Proofs.Token.Extension

set_option autoImplicit false

/-! # Tokens that are printed

A printer of objects writes bytes as pairs of hexadecimal digits, names with escapes for the bytes
that cannot stand for themselves, and integers with a sign. Each of these is read back as what was
printed, whatever bytes the string or the name holds (`scan_printString`, `scan_printName`,
`scan_printInteger`). -/

namespace CrossReference

open Bytes (Stops)
open Decimal (digits)

/-! ## Hexadecimal digits -/

namespace Byte

/-- The hexadecimal digit of a number below sixteen, with letters of one case. -/
def hexDigit (upper : Bool) (value : UInt8) : UInt8 :=
  if value < 10 then 0x30 + value else if upper then 0x37 + value else 0x57 + value

/-- A byte as two hexadecimal digits. -/
def hexPair (upper : Bool) (b : UInt8) : Bytes :=
  [hexDigit upper (b / 16), hexDigit upper (b % 16)]

theorem hexValue?_hexDigit (upper : Bool) {value : UInt8} (h : value.toNat < 16) :
    hexValue? (hexDigit upper value) = some value := by
  have hall : ∀ n < 16, ∀ upper : Bool,
      hexValue? (hexDigit upper (UInt8.ofNat n)) = some (UInt8.ofNat n) := by decide
  have hvalue := hall value.toNat h upper
  rwa [UInt8.ofNat_toNat] at hvalue

theorem hexValue?_high (upper : Bool) (b : UInt8) :
    hexValue? (hexDigit upper (b / 16)) = some (b / 16) := by
  have hb := b.toNat_lt
  refine hexValue?_hexDigit upper ?_
  rw [UInt8.toNat_div]
  change b.toNat / 16 < 16
  omega

theorem hexValue?_low (upper : Bool) (b : UInt8) :
    hexValue? (hexDigit upper (b % 16)) = some (b % 16) := by
  refine hexValue?_hexDigit upper ?_
  rw [UInt8.toNat_mod]
  exact Nat.mod_lt _ (by decide)

theorem high_add_low (b : UInt8) : b / 16 * 16 + b % 16 = b := by
  have hb := b.toNat_lt
  refine UInt8.toNat_inj.mp ?_
  rw [UInt8.toNat_add, UInt8.toNat_mul, UInt8.toNat_div, UInt8.toNat_mod]
  change (b.toNat / 16 * 16 % 256 + b.toNat % 16) % 256 = b.toNat
  omega

/-- A hexadecimal digit neither closes a string nor stands between its digits. -/
theorem ne_close_of_hexValue? {b value : UInt8} (h : hexValue? b = some value) :
    b ≠ 0x3E ∧ b ≠ 0x3C ∧ isWhite b = false := by
  refine ⟨?_, ?_, ?_⟩
  · rintro rfl
    cases h
  · rintro rfl
    cases h
  · cases hw : isWhite b with
    | false => rfl
    | true =>
      simp only [isWhite, Bool.or_eq_true, decide_eq_true_eq] at hw
      rcases hw with ((((rfl | rfl) | rfl) | rfl) | rfl) | rfl <;> cases h

end Byte

namespace Bytes

/-- Bytes as hexadecimal digits, two for each byte. -/
def hex (upper : Bool) (bytes : Bytes) : Bytes := bytes.flatMap (Byte.hexPair upper)

theorem ofHexDigits_halves (bytes : Bytes) :
    ofHexDigits (bytes.flatMap fun b => [b / 16, b % 16]) = bytes := by
  induction bytes with
  | nil => rfl
  | cons b bytes ih =>
    rw [List.flatMap_cons, List.cons_append, List.cons_append, List.nil_append, ofHexDigits,
      Byte.high_add_low, ih]

end Bytes

namespace Token

/-! ## Strings -/

/-- The hexadecimal string of some bytes. -/
def printString (upper : Bool) (bytes : Bytes) : Bytes := 0x3C :: (Bytes.hex upper bytes ++ [0x3E])

theorem hexStringRest_digit {b value : UInt8} (h : Byte.hexValue? b = some value)
    (acc : List UInt8) (n : Nat) (rest : Bytes) :
    hexStringRest acc n (b :: rest) = hexStringRest (value :: acc) (n + 1) rest := by
  obtain ⟨hclose, _, hwhite⟩ := Byte.ne_close_of_hexValue? h
  rw [hexStringRest, if_neg hclose, if_neg (by rw [hwhite]; decide), h]

theorem hexStringRest_hex (upper : Bool) (bytes : Bytes) (acc : List UInt8) (n : Nat)
    (rest : Bytes) :
    hexStringRest acc n (Bytes.hex upper bytes ++ 0x3E :: rest) =
      (.ok (Bytes.ofHexDigits (acc.reverse ++ bytes.flatMap fun b => [b / 16, b % 16])),
        n + (Bytes.hex upper bytes).length + 1) := by
  induction bytes generalizing acc n with
  | nil =>
    change hexStringRest acc n (0x3E :: rest) = _
    rw [hexStringRest, if_pos rfl, List.flatMap_nil, List.append_nil]
    rfl
  | cons b bytes ih =>
    have htext : Bytes.hex upper (b :: bytes) = Byte.hexDigit upper (b / 16) ::
        Byte.hexDigit upper (b % 16) :: Bytes.hex upper bytes := rfl
    rw [htext, List.cons_append, List.cons_append,
      hexStringRest_digit (Byte.hexValue?_high upper b),
      hexStringRest_digit (Byte.hexValue?_low upper b), ih, List.reverse_cons, List.reverse_cons,
      List.append_assoc, List.append_assoc, List.length_cons, List.length_cons, List.flatMap_cons]
    congr 1
    omega

/-- Bytes are read back from their hexadecimal string. -/
theorem scan_printString (upper : Bool) (bytes rest : Bytes) :
    scan (printString upper bytes ++ rest) =
      (.ok (.string bytes), (printString upper bytes).length) := by
  have htext : printString upper bytes ++ rest =
      0x3C :: (Bytes.hex upper bytes ++ 0x3E :: rest) := by
    simp [printString]
  have hread := hexStringRest_hex upper bytes [] 1 rest
  rw [List.reverse_nil, List.nil_append, Bytes.ofHexDigits_halves] at hread
  -- the digits behind the bracket do not make it that of a dictionary
  have hstring : scanFrom 0x3C (Bytes.hex upper bytes ++ 0x3E :: rest) =
      ((hexStringRest [] 1 (Bytes.hex upper bytes ++ 0x3E :: rest)).1.map .string,
        (hexStringRest [] 1 (Bytes.hex upper bytes ++ 0x3E :: rest)).2) := by
    cases bytes with
    | nil => rfl
    | cons b bytes =>
      have hdigit := (Byte.ne_close_of_hexValue? (Byte.hexValue?_high upper b)).2.1
      change scanFrom 0x3C (Byte.hexDigit upper (b / 16) :: _) =
        ((hexStringRest [] 1 (Byte.hexDigit upper (b / 16) :: _)).1.map .string,
          (hexStringRest [] 1 (Byte.hexDigit upper (b / 16) :: _)).2)
      simp [scanFrom, hdigit]
  rw [htext, scan_of_not_white (by decide), hstring, hread]
  simp [printString, Except.map]
  omega

/-! ## Names -/

/-- A byte of a name: itself, or a number sign and its hexadecimal digits. -/
def printNameByte (upper : Bool) (b : UInt8) : Bytes :=
  if isPlain b then [b] else 0x23 :: Byte.hexPair upper b

/-- A name with its solidus and with escapes. -/
def printName (upper : Bool) (n : Name) : Bytes := 0x2F :: n.bytes.flatMap (printNameByte upper)

theorem nameRest_escape {high low high' low' : UInt8} (hhigh : Byte.hexValue? high = some high')
    (hlow : Byte.hexValue? low = some low') (acc : Bytes) (n : Nat) (rest : Bytes) :
    nameRest acc n (0x23 :: high :: low :: rest) =
      nameRest ((high' * 16 + low') :: acc) (n + 3) rest := by
  rw [nameRest.eq_def]
  dsimp only
  rw [if_neg (by decide), if_pos rfl, hhigh, hlow]

/-- The byte of a name is read back, escaped or not. -/
theorem nameRest_printNameByte (upper : Bool) (b : UInt8) (acc : Bytes) (n : Nat) (rest : Bytes) :
    nameRest acc n (printNameByte upper b ++ rest) =
      nameRest (b :: acc) (n + (printNameByte upper b).length) rest := by
  unfold printNameByte
  split
  · rename_i hplain
    exact nameRest_of_plain hplain acc n rest
  · have hread := nameRest_escape (Byte.hexValue?_high upper b) (Byte.hexValue?_low upper b) acc n
      rest
    rwa [Byte.high_add_low] at hread

theorem nameRest_print (upper : Bool) {name rest : Bytes} (hstop : Stops Byte.isRegular rest)
    (acc : Bytes) (n : Nat) :
    nameRest acc n (name.flatMap (printNameByte upper) ++ rest) =
      (.ok ⟨acc.reverse ++ name⟩, n + (name.flatMap (printNameByte upper)).length) := by
  induction name generalizing acc n with
  | nil => rw [List.flatMap_nil, List.nil_append, List.append_nil, nameRest_of_stops hstop]; rfl
  | cons b name ih =>
    rw [List.flatMap_cons, List.append_assoc, nameRest_printNameByte, ih, List.reverse_cons,
      List.append_assoc, List.length_append, Nat.add_assoc]
    rfl

/-- A name is read back, whatever its bytes are. -/
theorem scan_printName (upper : Bool) (n : Name) {rest : Bytes}
    (hstop : Stops Byte.isRegular rest) :
    scan (printName upper n ++ rest) = (.ok (.name n), (printName upper n).length) := by
  rw [printName, List.cons_append, scan_of_not_white (by decide)]
  unfold scanFrom
  rw [if_neg (by decide), if_pos rfl, nameRest_print upper hstop, List.length_cons, Nat.add_comm]
  rfl

/-! ## Integers -/

/-- An integer by its digits, behind a minus sign if it is negative. -/
def printInteger (value : Int) : Bytes :=
  if value < 0 then 0x2D :: digits value.natAbs else digits value.natAbs

/-- Digits behind a minus sign are read as the number that they write, if it has the size of an
    integer. -/
theorem scan_minus {digits rest : Bytes} (hd : ∀ b ∈ digits, Byte.isDigit b = true)
    (hne : digits ≠ []) (hstop : StopsNumber rest)
    (hfits : Decimal.fitsSigned64 (-(Decimal.ofDigits digits : Int)) = true) :
    scan (0x2D :: (digits ++ rest)) =
      (.ok (.integer (-(Decimal.ofDigits digits : Int))), digits.length + 1) := by
  have hread := scan_numeral (Or.inr (Or.inr rfl)) hd hne hstop
  rw [List.singleton_append, List.singleton_append] at hread
  rw [hread]
  simp [Numeral.token, Numeral.isNegative, hfits, hne]

/-- A number that is not too great is read back from its digits. -/
theorem scan_natural {n : Nat} (hn : n ≤ Decimal.maxSigned64) {rest : Bytes}
    (hstop : StopsNumber rest) :
    scan (digits n ++ rest) = (.ok (.integer n), (digits n).length) := by
  have hread := scan_digits Decimal.isDigit_digits (Decimal.digits_ne_nil n) hstop
    (by rw [Decimal.ofDigits_digits]; exact hn)
  rwa [Decimal.ofDigits_digits] at hread

/-- An integer of 64 bits is read back. -/
theorem scan_printInteger {value : Int} (hfits : Decimal.fitsSigned64 value = true) {rest : Bytes}
    (hstop : StopsNumber rest) :
    scan (printInteger value ++ rest) = (.ok (.integer value), (printInteger value).length) := by
  unfold printInteger
  split
  · rename_i hnegative
    have hvalue : -(Decimal.ofDigits (digits value.natAbs) : Int) = value := by
      rw [Decimal.ofDigits_digits]
      omega
    have hread := scan_minus Decimal.isDigit_digits (Decimal.digits_ne_nil value.natAbs) hstop
      (by rw [hvalue]; exact hfits)
    rwa [hvalue] at hread
  · rename_i hnegative
    have hvalue : (value.natAbs : Int) = value := by omega
    have hle : value.natAbs ≤ Decimal.maxSigned64 := by
      simp only [Decimal.fitsSigned64, Bool.and_eq_true, decide_eq_true_eq] at hfits
      omega
    have hread := scan_natural hle hstop
    rwa [hvalue] at hread

theorem printInteger_ne_nil (value : Int) : printInteger value ≠ [] := by
  unfold printInteger
  split
  · exact List.cons_ne_nil _ _
  · exact Decimal.digits_ne_nil _

end Token

/-- A reader of integers takes the digits of a number behind white space. -/
theorem Reader.integer_natural {white rest : Bytes} (hw : ∀ b ∈ white, Byte.isWhite b = true)
    {n : Nat} (hn : n ≤ Decimal.maxSigned64) (hstop : Stops Byte.isRegular rest) (position : Nat) :
    integer ⟨position, white ++ (digits n ++ rest)⟩ =
      .ok n ⟨position + (white.length + (digits n).length), rest⟩ := by
  have hread := integer_digits hw Decimal.isDigit_digits (Decimal.digits_ne_nil n)
    (Token.stopsNumber_of_stops hstop) (by rw [Decimal.ofDigits_digits]; exact hn) position
  rwa [Decimal.ofDigits_digits] at hread

end CrossReference
