import CrossReference.Proofs.Bytes.Runs
import CrossReference.Token.Reader

set_option autoImplicit false

/-! # Tokens that are written out

How the reader of tokens takes a text whose first token is written out: behind white space
(`scan_white`), a run of digits (`scan_digits`), a bare word (`scan_word`) and a name without
escapes (`scan_name`). The condition is in each case on the byte behind the token only. -/

namespace CrossReference

open Bytes (Stops)

/-! ## Running readers -/

section

variable {ε σ α β : Type} {x : EStateM ε σ α} {f : α → EStateM ε σ β} {s s' : σ}

theorem bind_of_ok {a : α} (h : x s = .ok a s') : (x >>= f) s = f a s' := by
  change EStateM.bind x f s = _
  unfold EStateM.bind
  rw [h]

theorem bind_of_error {e : ε} (h : x s = .error e s') : (x >>= f) s = .error e s' := by
  change EStateM.bind x f s = _
  unfold EStateM.bind
  rw [h]

/-- What a reading goes on with depends on the first reading only. -/
theorem bind_of_eq {t : σ} (h : x s = x t) : (x >>= f) s = (x >>= f) t := by
  change EStateM.bind x f s = EStateM.bind x f t
  unfold EStateM.bind
  rw [h]

/-- Two readings in a row succeed if both of them do. -/
theorem bind_eq_ok {b : β} :
    (x >>= f) s = .ok b s' ↔ ∃ a s₁, x s = .ok a s₁ ∧ f a s₁ = .ok b s' := by
  cases h : x s with
  | ok a s₁ =>
    rw [bind_of_ok h]
    constructor
    · exact fun hf => ⟨a, s₁, rfl, hf⟩
    · rintro ⟨a', s₁', hx, hf⟩
      cases hx
      exact hf
  | error e s₁ =>
    rw [bind_of_error h]
    constructor
    · intro hf
      cases hf
    · rintro ⟨a', s₁', hx, _⟩
      cases hx

end

namespace Byte

theorem not_isWhite_of_isDigit {b : UInt8} (h : isDigit b = true) : isWhite b = false := by
  cases hw : isWhite b with
  | false => rfl
  | true =>
    simp only [isWhite, Bool.or_eq_true, decide_eq_true_eq] at hw
    rcases hw with ((((rfl | rfl) | rfl) | rfl) | rfl) | rfl <;> exact absurd h (by decide)

/-! What may stand between tokens: nothing, a space, a line feed. -/

theorem nil_white : ∀ b ∈ ([] : Bytes), isWhite b = true := fun _ hb => (List.not_mem_nil hb).elim

theorem space_white : ∀ b ∈ ([0x20] : Bytes), isWhite b = true := List.all_eq_true.mp (by decide)

theorem space_ne_nil : ([0x20] : Bytes) ≠ [] := List.cons_ne_nil _ _

theorem feed_white : ∀ b ∈ ([0x0A] : Bytes), isWhite b = true := List.all_eq_true.mp (by decide)

theorem isRegular_iff {b : UInt8} :
    isRegular b = true ↔ isWhite b = false ∧ isDelimiter b = false := by
  simp [isRegular]

theorem isRegular_of_isDigit {b : UInt8} (h : isDigit b = true) : isRegular b = true := by
  refine isRegular_iff.mpr ⟨not_isWhite_of_isDigit h, ?_⟩
  cases hd : isDelimiter b with
  | false => rfl
  | true =>
    simp only [isDelimiter, Bool.or_eq_true, decide_eq_true_eq] at hd
    rcases hd with ((((((((rfl | rfl) | rfl) | rfl) | rfl) | rfl) | rfl) | rfl) | rfl) | rfl <;>
      exact absurd h (by decide)

end Byte

namespace Token

/-- A text whose number cannot go on. -/
def StopsNumber (text : Bytes) : Prop := Stops Byte.isDigit text ∧ Stops (· = 0x2E) text

/-- A byte that cannot go on a word cannot go on a number. -/
theorem stopsNumber_of_stops {rest : Bytes} (h : Stops Byte.isRegular rest) : StopsNumber rest := by
  refine ⟨h.mono fun _ => Byte.isRegular_of_isDigit, h.mono fun b hb => ?_⟩
  rw [of_decide_eq_true hb]
  decide

theorem scan_of_not_white {b : UInt8} (h : Byte.isWhite b = false) (rest : Bytes) :
    scan (b :: rest) = scanFrom b rest := by
  unfold scan
  rw [List.takeWhile_cons, h]
  simp

/-- White space in front of a token only counts for the number of bytes. -/
theorem scan_white {white : Bytes} (hw : ∀ b ∈ white, Byte.isWhite b = true) (text : Bytes) :
    scan (white ++ text) = ((scan text).1, white.length + (scan text).2) := by
  unfold scan
  rw [List.takeWhile_append_of_pos hw, List.length_append]
  dsimp only
  rw [List.drop_length_add_append]
  cases text.drop (text.takeWhile Byte.isWhite).length with
  | nil => rfl
  | cons b rest => simp only [Nat.add_assoc]

/-! ## Numbers -/

namespace Numeral

/-- The sign at the front of a text. -/
def signOf : Bytes → Bytes
  | 0x2B :: _ => [0x2B]
  | 0x2D :: _ => [0x2D]
  | _ => []

/-- The longest number with a given sign and no other. -/
def frontUnsigned (sign unsigned : Bytes) : Numeral :=
  let whole := unsigned.takeWhile Byte.isDigit
  match unsigned.drop whole.length with
  | 0x2E :: rest => ⟨sign, whole, some (rest.takeWhile Byte.isDigit)⟩
  | _ => ⟨sign, whole, none⟩

theorem front_eq (text : Bytes) :
    front text = frontUnsigned (signOf text) (text.drop (signOf text).length) := rfl

theorem frontUnsigned_digits (sign : Bytes) {digits rest : Bytes}
    (hd : ∀ b ∈ digits, Byte.isDigit b = true) (hstop : StopsNumber rest) :
    frontUnsigned sign (digits ++ rest) = ⟨sign, digits, none⟩ := by
  unfold frontUnsigned
  rw [Bytes.takeWhile_run hd hstop.1]
  dsimp only
  rw [List.drop_left]
  split
  · have hpoint := hstop.2 0x2E rfl
    cases hpoint
  · rfl

/-- What may stand in front of the digits of a number. -/
def IsSign (sign : Bytes) : Prop := sign = [] ∨ sign = [0x2B] ∨ sign = [0x2D]

theorem signOf_append {sign digits : Bytes} (hsign : IsSign sign)
    (hd : ∀ b ∈ digits, Byte.isDigit b = true) (hne : digits ≠ []) (rest : Bytes) :
    signOf (sign ++ (digits ++ rest)) = sign := by
  rcases hsign with rfl | rfl | rfl
  · obtain ⟨b, more, rfl, hb⟩ := Bytes.exists_cons_of_run hd hne
    have hplus : b ≠ 0x2B := by
      rintro rfl
      exact absurd hb (by decide)
    have hminus : b ≠ 0x2D := by
      rintro rfl
      exact absurd hb (by decide)
    simp [signOf, hplus, hminus]
  · rfl
  · rfl

theorem front_digits {sign digits rest : Bytes} (hsign : IsSign sign)
    (hd : ∀ b ∈ digits, Byte.isDigit b = true) (hne : digits ≠ []) (hstop : StopsNumber rest) :
    front (sign ++ (digits ++ rest)) = ⟨sign, digits, none⟩ := by
  rw [front_eq, signOf_append hsign hd hne, List.drop_left, frontUnsigned_digits sign hd hstop]

end Numeral

/-- Digits, perhaps behind a sign, are read as the number that they write, whatever becomes of
    that. -/
theorem scan_numeral {sign digits rest : Bytes} (hsign : Numeral.IsSign sign)
    (hd : ∀ b ∈ digits, Byte.isDigit b = true) (hne : digits ≠ []) (hstop : StopsNumber rest) :
    scan (sign ++ (digits ++ rest)) =
      (Numeral.token ⟨sign, digits, none⟩, (sign ++ digits).length) := by
  have hfront := Numeral.front_digits hsign hd hne hstop
  obtain ⟨b, tail, htext, hb⟩ : ∃ b tail, sign ++ (digits ++ rest) = b :: tail ∧
      (Byte.isDigit b || b = 0x2B || b = 0x2D) = true := by
    rcases hsign with rfl | rfl | rfl
    · obtain ⟨b, more, rfl, hb⟩ := Bytes.exists_cons_of_run hd hne
      exact ⟨b, more ++ rest, rfl, by simp [hb]⟩
    · exact ⟨_, _, rfl, by decide⟩
    · exact ⟨_, _, rfl, by decide⟩
  have hother : ∀ c : UInt8, (Byte.isDigit c || c = 0x2B || c = 0x2D) = false → b ≠ c := by
    rintro c hc rfl
    rw [hb] at hc
    cases hc
  have hwhite : Byte.isWhite b = false := by
    rw [Bool.or_eq_true, Bool.or_eq_true, decide_eq_true_eq, decide_eq_true_eq] at hb
    rcases hb with (hdigit | rfl) | rfl
    · exact Byte.not_isWhite_of_isDigit hdigit
    · decide
    · decide
  rw [htext] at hfront ⊢
  rw [scan_of_not_white hwhite]
  unfold scanFrom
  rw [if_neg (hother _ (by decide)), if_neg (hother _ (by decide)), if_neg (hother _ (by decide)),
    if_neg (hother _ (by decide)), if_neg (hother _ (by decide)), if_neg (hother _ (by decide)),
    if_neg (hother _ (by decide)), if_pos (by rw [hb, Bool.true_or]), hfront]
  simp [Numeral.text]

/-- A run of digits is read as an integer, if it has the size of one. -/
theorem scan_digits {digits rest : Bytes} (hd : ∀ b ∈ digits, Byte.isDigit b = true)
    (hne : digits ≠ []) (hstop : StopsNumber rest)
    (hfits : Decimal.ofDigits digits ≤ Decimal.maxSigned64) :
    scan (digits ++ rest) = (.ok (.integer (Decimal.ofDigits digits)), digits.length) := by
  have hfits' : Decimal.fitsSigned64 (Decimal.ofDigits digits) = true := by
    unfold Decimal.fitsSigned64
    simp only [Bool.and_eq_true, decide_eq_true_eq]
    omega
  have hread := scan_numeral (Or.inl rfl) hd hne hstop
  rw [List.nil_append, List.nil_append] at hread
  rw [hread]
  simp [Numeral.token, Numeral.isNegative, hfits', hne]

/-- A run of digits that writes too great a number is no token. -/
theorem scan_digits_of_lt {digits rest : Bytes} (hd : ∀ b ∈ digits, Byte.isDigit b = true)
    (hne : digits ≠ []) (hstop : StopsNumber rest)
    (hlarge : Decimal.maxSigned64 < Decimal.ofDigits digits) :
    scan (digits ++ rest) = (.error (.integerNumber digits), digits.length) := by
  have hlarge' : Decimal.fitsSigned64 (Decimal.ofDigits digits) = false := by
    unfold Decimal.fitsSigned64
    simp only [Bool.and_eq_false_iff, decide_eq_false_iff_not]
    omega
  have hread := scan_numeral (Or.inl rfl) hd hne hstop
  rw [List.nil_append, List.nil_append] at hread
  rw [hread]
  simp [Numeral.token, Numeral.text, Numeral.isNegative, hlarge']

/-! ## Words -/

/-- Whether a bare word can begin with a byte. -/
def beginsWord (b : UInt8) : Bool :=
  Byte.isRegular b && !Byte.isDigit b && b != 0x2B && b != 0x2D && b != 0x2E

/-- A run of regular bytes that does not begin like a number is read as a word. -/
theorem scan_word (b : UInt8) (word : Bytes) (hb : beginsWord b = true)
    (hw : word.all Byte.isRegular = true) {rest : Bytes} (hstop : Stops Byte.isRegular rest) :
    scan (b :: word ++ rest) = (.ok (ofWord (b :: word)), (b :: word).length) := by
  simp only [beginsWord, Bool.and_eq_true, bne_iff_ne, Bool.not_eq_true'] at hb
  obtain ⟨⟨⟨⟨hregular, hdigit⟩, hplus⟩, hminus⟩, hpoint⟩ := hb
  obtain ⟨hwhite, hdelimiter⟩ := Byte.isRegular_iff.mp hregular
  have hother : ∀ c : UInt8, Byte.isDelimiter c = true → b ≠ c := by
    rintro c hc rfl
    rw [hdelimiter] at hc
    cases hc
  rw [List.cons_append, scan_of_not_white hwhite]
  unfold scanFrom
  rw [if_neg (hother _ (by decide)), if_neg (hother _ (by decide)), if_neg (hother _ (by decide)),
    if_neg (hother _ (by decide)), if_neg (hother _ (by decide)), if_neg (hother _ (by decide)),
    if_neg (hother _ (by decide)), if_neg (by simp [hdigit, hplus, hminus, hpoint]),
    if_neg (by simp [hdelimiter]), Bytes.takeWhile_run (List.all_eq_true.mp hw) hstop]

/-- A reserved keyword is read as itself. -/
theorem ofWord_spelling (r : Reserved) : ofWord r.spelling = .reserved r := by
  cases r <;> decide

/-- A reserved keyword is read if it ends where it is written out. -/
theorem scan_reserved (r : Reserved) {rest : Bytes} (hstop : Stops Byte.isRegular rest) :
    scan (r.spelling ++ rest) = (.ok (.reserved r), r.spelling.length) := by
  have hword : ∃ b word, r.spelling = b :: word ∧ beginsWord b = true ∧
      word.all Byte.isRegular = true := by
    cases r <;> exact ⟨_, _, rfl, by decide, by decide⟩
  obtain ⟨b, word, hspelling, hb, hw⟩ := hword
  rw [← ofWord_spelling r, hspelling]
  exact scan_word b word hb hw hstop

/-! ## Names and brackets -/

/-- Whether a byte stands for itself in a name. -/
def isPlain (b : UInt8) : Bool := Byte.isRegular b && b != 0x23

theorem nameRest_of_stops {rest : Bytes} (hstop : Stops Byte.isRegular rest) (acc : Bytes)
    (n : Nat) : nameRest acc n rest = (.ok ⟨acc.reverse⟩, n) := by
  cases rest with
  | nil => rfl
  | cons b rest =>
    have hb := Bytes.stops_cons.mp hstop
    unfold nameRest
    rw [hb]
    rfl

theorem nameRest_of_plain {b : UInt8} (hb : isPlain b = true) (acc : Bytes) (n : Nat)
    (rest : Bytes) : nameRest acc n (b :: rest) = nameRest (b :: acc) (n + 1) rest := by
  rw [isPlain, Bool.and_eq_true, bne_iff_ne] at hb
  obtain ⟨hregular, hnumber⟩ := hb
  have hnot : ¬(!Byte.isRegular b) = true := by rw [hregular]; decide
  rw [nameRest.eq_def]
  dsimp only
  rw [if_neg hnot, if_neg hnumber]

theorem nameRest_plain {name rest : Bytes} (hplain : ∀ b ∈ name, isPlain b = true)
    (hstop : Stops Byte.isRegular rest) (acc : Bytes) (n : Nat) :
    nameRest acc n (name ++ rest) = (.ok ⟨acc.reverse ++ name⟩, n + name.length) := by
  induction name generalizing acc n with
  | nil =>
    rw [List.nil_append, List.append_nil, nameRest_of_stops hstop, List.length_nil, Nat.add_zero]
  | cons b name ih =>
    have hrest := ih (fun c hc => hplain c (List.mem_cons_of_mem b hc)) (b :: acc) (n + 1)
    rw [List.reverse_cons, List.append_assoc, Nat.add_assoc, Nat.add_comm 1] at hrest
    rw [List.cons_append, nameRest_of_plain (hplain b List.mem_cons_self), hrest]
    rfl

/-- A name without escapes is read up to the first byte that is not regular. -/
theorem scan_name {name rest : Bytes} (hplain : ∀ b ∈ name, isPlain b = true)
    (hstop : Stops Byte.isRegular rest) :
    scan (0x2F :: (name ++ rest)) = (.ok (.name ⟨name⟩), 1 + name.length) := by
  rw [scan_of_not_white (by decide)]
  unfold scanFrom
  rw [if_neg (by decide), if_pos rfl, nameRest_plain hplain hstop]
  rfl

theorem scan_dictOpen (rest : Bytes) : scan (0x3C :: 0x3C :: rest) = (.ok .dictOpen, 2) := by
  rw [scan_of_not_white (by decide)]
  rfl

theorem scan_dictClose (rest : Bytes) : scan (0x3E :: 0x3E :: rest) = (.ok .dictClose, 2) := by
  rw [scan_of_not_white (by decide)]
  rfl

theorem scan_arrayOpen (rest : Bytes) : scan (0x5B :: rest) = (.ok .arrayOpen, 1) := by
  rw [scan_of_not_white (by decide)]
  rfl

theorem scan_arrayClose (rest : Bytes) : scan (0x5D :: rest) = (.ok .arrayClose, 1) := by
  rw [scan_of_not_white (by decide)]
  rfl

theorem skipLength_white {white : Bytes} (hw : ∀ b ∈ white, Byte.isWhite b = true) (n : Nat)
    (text : Bytes) :
    skipLength false n (white ++ text) = skipLength false (n + white.length) text := by
  induction white generalizing n with
  | nil => rfl
  | cons b white ih =>
    have hb := hw b List.mem_cons_self
    rw [List.cons_append, skipLength, if_neg Bool.false_ne_true, if_pos hb,
      ih (fun c hc => hw c (List.mem_cons_of_mem b hc)), List.length_cons]
    congr 1
    omega

end Token

/-! ## Readers of tokens -/

namespace Reader

theorem token_of_scan {t : Token} {text : Bytes} {n : Nat} (h : Token.scan text = (.ok t, n))
    (position : Nat) : token ⟨position, text⟩ = .ok t ⟨position + n, text.drop n⟩ := by
  unfold token
  rw [h]
  rfl

theorem exists_scan_of_token {t : Token} {c c' : Cursor} (h : token c = .ok t c') :
    ∃ n, Token.scan c.rest = (.ok t, n) ∧ c' = c.advance n := by
  unfold token at h
  generalize Token.scan c.rest = result at h ⊢
  obtain ⟨_ | t', n⟩ := result
  · cases h
  · cases h
    exact ⟨n, rfl, rfl⟩

theorem integer_of_scan {value : Int} {text : Bytes} {n : Nat}
    (h : Token.scan text = (.ok (.integer value), n)) (position : Nat) :
    integer ⟨position, text⟩ = .ok value ⟨position + n, text.drop n⟩ := by
  unfold integer
  rw [bind_of_ok (token_of_scan h position)]
  rfl

theorem expect_of_scan {r : Reserved} {text : Bytes} {n : Nat}
    (h : Token.scan text = (.ok (.reserved r), n)) (position : Nat) :
    expect r.spelling ⟨position, text⟩ = .ok () ⟨position + n, text.drop n⟩ := by
  have hword : (Token.reserved r).keyword? = some r.spelling := rfl
  unfold expect
  rw [bind_of_ok (token_of_scan h position), if_pos hword]
  rfl

/-- White space in front of a token only counts for the place. -/
theorem token_white {white : Bytes} (hw : ∀ b ∈ white, Byte.isWhite b = true) (position : Nat)
    (text : Bytes) :
    token ⟨position, white ++ text⟩ = token ⟨position + white.length, text⟩ := by
  have hadvance : ∀ n, (⟨position, white ++ text⟩ : Cursor).advance (white.length + n) =
      (⟨position + white.length, text⟩ : Cursor).advance n := by
    intro n
    unfold Cursor.advance
    dsimp only
    rw [List.drop_length_add_append, Nat.add_assoc]
  unfold token
  rw [Token.scan_white hw]
  obtain ⟨result, n⟩ := Token.scan text
  cases result with
  | ok t => dsimp only; rw [hadvance]
  | error fault => dsimp only; rw [hadvance]

theorem token_of_scan_white {white text : Bytes} {t : Token} {n : Nat}
    (hw : ∀ b ∈ white, Byte.isWhite b = true) (h : Token.scan text = (.ok t, n)) (position : Nat) :
    token ⟨position, white ++ text⟩ = .ok t ⟨position + white.length + n, text.drop n⟩ := by
  rw [token_white hw, token_of_scan h]

/-- A token that is no comment is read behind white space. -/
theorem significant_of_scan {b : UInt8} {white rest : Bytes} {t : Token} {n : Nat}
    (hw : ∀ b ∈ white, Byte.isWhite b = true) (hb : Byte.isWhite b = false) (hcomment : b ≠ 0x25)
    (h : Token.scan (b :: rest) = (.ok t, n)) (position : Nat) :
    significant ⟨position, white ++ b :: rest⟩ =
      .ok t ⟨position + white.length + n, (b :: rest).drop n⟩ := by
  have hskip : (⟨position, white ++ b :: rest⟩ : Cursor).skipComments =
      ⟨position + white.length, b :: rest⟩ := by
    unfold Cursor.skipComments Cursor.advance
    dsimp only
    rw [Token.skipLength_white hw, Token.skipLength, if_neg Bool.false_ne_true,
      if_neg (by rw [hb]; exact Bool.false_ne_true), if_neg hcomment, Nat.zero_add,
      List.drop_left]
  unfold significant
  rw [hskip, token_of_scan h]

/-- An integer that is written out behind white space. -/
theorem integer_digits {white digits rest : Bytes} (hw : ∀ b ∈ white, Byte.isWhite b = true)
    (hd : ∀ b ∈ digits, Byte.isDigit b = true) (hne : digits ≠ [])
    (hstop : Token.StopsNumber rest) (hfits : Decimal.ofDigits digits ≤ Decimal.maxSigned64)
    (position : Nat) :
    integer ⟨position, white ++ (digits ++ rest)⟩ =
      .ok (Decimal.ofDigits digits) ⟨position + (white.length + digits.length), rest⟩ := by
  have hscan := Token.scan_white hw (digits ++ rest)
  rw [Token.scan_digits hd hne hstop hfits] at hscan
  rw [integer_of_scan hscan, List.drop_length_add_append, List.drop_left]

/-- A reserved keyword that is written out behind white space. -/
theorem expect_spelling (r : Reserved) {white rest : Bytes}
    (hw : ∀ b ∈ white, Byte.isWhite b = true) (hstop : Stops Byte.isRegular rest)
    (position : Nat) :
    expect r.spelling ⟨position, white ++ (r.spelling ++ rest)⟩ =
      .ok () ⟨position + (white.length + r.spelling.length), rest⟩ := by
  have hscan := Token.scan_white hw (r.spelling ++ rest)
  rw [Token.scan_reserved r hstop] at hscan
  rw [expect_of_scan hscan, List.drop_length_add_append, List.drop_left]

/-- The numbers of a key are those of that key. -/
theorem key?_self {key : Key} (hle : key.generation ≤ Decimal.maxWord32) :
    key? key.number key.generation = some key := by
  have hfits : (key.generation : Int) ≤ (Decimal.maxWord32 : Nat) := Int.ofNat_le.mpr hle
  unfold key?
  rw [if_pos (by simp [hfits])]
  rfl

/-- A header is read part by part. -/
theorem header_of_parts {key : Key} (hle : key.generation ≤ Decimal.maxWord32)
    {c c₁ c₂ c₃ : Cursor} (hnumber : integer c = .ok key.number c₁)
    (hgeneration : integer c₁ = .ok key.generation c₂)
    (hobj : expect Reserved.obj.spelling c₂ = .ok () c₃) : header c = .ok key c₃ := by
  unfold header
  dsimp only
  rw [bind_of_ok hnumber, bind_of_ok hgeneration, bind_of_ok hobj]
  dsimp only [pure, EStateM.pure]
  rw [key?_self hle]

end Reader

end CrossReference
