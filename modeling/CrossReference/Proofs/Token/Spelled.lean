import CrossReference.Proofs.Token.Extension

set_option autoImplicit false

/-! # How a token that was read is spelled

`Words.lean` says how a text that is written out is read. Here is the way back: what the text was if
an integer was read (`Reader.integer_eq_ok`), or a reserved keyword (`Reader.expect_eq_ok`). Only
white space stands in front of either; a comment is a token of its own. -/

namespace CrossReference

open Bytes (Stops)

namespace Token

/-! ## The token that begins with a byte -/

/-- A bare word is a value, or a keyword that is spelled as it stands. -/
theorem ofWord_cases {word : Bytes} {t : Token} (h : ofWord word = t) :
    t.keyword? = some word ∨ t = .null ∨ ∃ value, t = .bool value := by
  subst h
  unfold ofWord
  split
  · exact Or.inr (Or.inr ⟨true, rfl⟩)
  split
  · exact Or.inr (Or.inr ⟨false, rfl⟩)
  split
  · exact Or.inr (Or.inl rfl)
  split
  · rename_i r hfound
    have hspelling : r.spelling = word := by simpa using List.find?_some hfound
    left
    rw [keyword?, hspelling]
  · exact Or.inl rfl

/-- What a token can be: a number, a bare word, or neither of them and behind a delimiter. -/
theorem scanFrom_cases {b : UInt8} (hwhite : Byte.isWhite b = false) {rest : Bytes} {t : Token}
    {n : Nat} (h : scanFrom b rest = (.ok t, n)) :
    ((Numeral.front (b :: rest)).token = .ok t ∧ (Numeral.front (b :: rest)).text.length = n) ∨
    (Byte.isRegular b = true ∧ ofWord (b :: rest.takeWhile Byte.isRegular) = t ∧
      (b :: rest.takeWhile Byte.isRegular).length = n) ∨
    (Byte.isDelimiter b = true ∧ t.keyword? = none ∧ ∀ value, t ≠ .integer value) := by
  have hother : ∀ {α : Type} {f : α → Token} {found : Taken α}, Byte.isDelimiter b = true →
      (∀ a, (f a).keyword? = none ∧ ∀ value, f a ≠ .integer value) →
      (found.1.map f, found.2) = (.ok t, n) →
      Byte.isDelimiter b = true ∧ t.keyword? = none ∧ ∀ value, t ≠ .integer value := by
    intro α f found hdelimiter hf hfound
    obtain ⟨a, _, rfl⟩ := exists_of_map_ok hfound
    exact ⟨hdelimiter, hf a⟩
  have hname : ∀ a : Name,
      (Token.name a).keyword? = none ∧ ∀ value, Token.name a ≠ .integer value :=
    fun _ => ⟨rfl, fun _ => Token.noConfusion⟩
  have hstring : ∀ a : Bytes,
      (Token.string a).keyword? = none ∧ ∀ value, Token.string a ≠ .integer value :=
    fun _ => ⟨rfl, fun _ => Token.noConfusion⟩
  -- the cases are those of the definition, in their order
  unfold scanFrom at h
  dsimp only at h
  split at h
  · rename_i hb
    cases h
    exact Or.inr (Or.inr ⟨hb ▸ rfl, rfl, fun _ => Token.noConfusion⟩)
  split at h
  · rename_i hb
    exact Or.inr (Or.inr (hother (hb ▸ rfl) hname h))
  split at h
  · rename_i hb
    exact Or.inr (Or.inr (hother (hb ▸ rfl) hstring h))
  split at h
  · rename_i hb
    split at h
    · cases h
      exact Or.inr (Or.inr ⟨hb ▸ rfl, rfl, fun _ => Token.noConfusion⟩)
    · exact Or.inr (Or.inr (hother (hb ▸ rfl) hstring h))
  split at h
  · rename_i hb
    split at h
    · cases h
      exact Or.inr (Or.inr ⟨hb ▸ rfl, rfl, fun _ => Token.noConfusion⟩)
    · cases h
  split at h
  · rename_i hb
    cases h
    exact Or.inr (Or.inr ⟨hb ▸ rfl, rfl, fun _ => Token.noConfusion⟩)
  split at h
  · rename_i hb
    cases h
    exact Or.inr (Or.inr ⟨hb ▸ rfl, rfl, fun _ => Token.noConfusion⟩)
  split at h
  · exact Or.inl (Prod.mk.inj h)
  split at h
  · cases h
  · rename_i hdelimiter
    obtain ⟨htoken, hlength⟩ := Prod.mk.inj h
    refine Or.inr (Or.inl ⟨?_, Except.ok.inj htoken, hlength⟩)
    rw [Byte.isRegular_iff]
    exact ⟨hwhite, Bool.not_eq_true _ ▸ hdelimiter⟩

/-- A token that is not the end begins behind white space. -/
theorem scan_eq_ok {text : Bytes} {t : Token} {n : Nat} (h : scan text = (.ok t, n))
    (hend : t ≠ .eof) :
    ∃ white b rest m, text = white ++ b :: rest ∧ (∀ c ∈ white, Byte.isWhite c = true) ∧
      Byte.isWhite b = false ∧ scanFrom b rest = (.ok t, m) ∧ white.length + m = n := by
  obtain ⟨white, tail, rfl, hwhite, hstop⟩ := Bytes.exists_run Byte.isWhite text
  rw [scan_white hwhite, Prod.mk.injEq] at h
  obtain ⟨hfound, rfl⟩ := h
  cases tail with
  | nil => exact absurd (Except.ok.inj hfound).symm hend
  | cons b rest =>
    have hb := Bytes.stops_cons.mp hstop
    rw [scan_of_not_white hb] at hfound ⊢
    exact ⟨white, b, rest, _, rfl, hwhite, hb, Prod.ext hfound rfl, rfl⟩

theorem Numeral.token_cases {x : Numeral} {t : Token} (h : x.token = .ok t) :
    (∃ value, t = .integer value) ∨ ∃ value, t = .real value := by
  unfold token at h
  dsimp only at h
  split at h
  · generalize (if x.isNegative = true then -(Decimal.ofDigits x.whole : Int)
      else Decimal.ofDigits x.whole) = found at h
    split at h
    · cases h
    · cases h
      exact Or.inl ⟨_, rfl⟩
  · split at h
    · cases h
    · cases h
      exact Or.inr ⟨_, rfl⟩

/-- Brackets and comments begin with a delimiter, and only white space stands in front of it. -/
theorem stops_of_scan {text : Bytes} {t : Token} {n : Nat} (h : scan text = (.ok t, n))
    (ht : t = .dictOpen ∨ ∃ comment, t = .comment comment) : Stops Byte.isRegular text := by
  obtain ⟨white, b, rest, m, rfl, hwhite, hb, hscan, _⟩ :=
    scan_eq_ok h (by rcases ht with rfl | ⟨_, rfl⟩ <;> exact Token.noConfusion)
  have hregular : Byte.isRegular b = false := by
    rcases scanFrom_cases hb hscan with ⟨hnumber, _⟩ | ⟨_, hword, _⟩ | ⟨hdelimiter, _⟩
    · rcases Numeral.token_cases hnumber with ⟨_, rfl⟩ | ⟨_, rfl⟩ <;> simp at ht
    · rcases ofWord_cases hword with hkeyword | rfl | ⟨_, rfl⟩
      · rcases ht with rfl | ⟨_, rfl⟩ <;> cases hkeyword
      · simp at ht
      · simp at ht
    · simp [Byte.isRegular, hdelimiter]
  exact Bytes.stops_regular_of_white hwhite (Bytes.stops_cons.mpr hregular)

/-! ## Integers -/

/-- An integer as it can be spelled: behind white space, perhaps a sign, and digits. -/
structure IntegerForm where
  white : Bytes
  sign : Bytes
  digits : Bytes
  isWhite : ∀ b ∈ white, Byte.isWhite b = true
  isSign : Numeral.IsSign sign
  isDigit : ∀ b ∈ digits, Byte.isDigit b = true
  ne_nil : digits ≠ []

namespace IntegerForm

/-- The bytes of a spelled integer. -/
def text (f : IntegerForm) : Bytes := f.white ++ (f.sign ++ f.digits)

/-- The integer that is spelled. -/
def value (f : IntegerForm) : Int :=
  if f.sign = [0x2D] then -(Decimal.ofDigits f.digits : Int) else Decimal.ofDigits f.digits

/-- A spelled integer begins with white space, a sign or a digit. -/
theorem head_text (f : IntegerForm) (rest : Bytes) :
    ∃ b ∈ (f.text ++ rest).head?, Byte.isWhite b = true ∨ b = 0x2B ∨ b = 0x2D ∨
      Byte.isDigit b = true := by
  unfold text
  cases hw : f.white with
  | cons b white =>
    exact ⟨b, rfl, Or.inl (f.isWhite b (hw ▸ List.mem_cons_self))⟩
  | nil =>
    rcases f.isSign with hsign | hsign | hsign
    · obtain ⟨b, digits, hdigits⟩ := List.exists_cons_of_ne_nil f.ne_nil
      rw [hsign, hdigits]
      exact ⟨b, rfl, Or.inr (Or.inr (Or.inr (f.isDigit b (hdigits ▸ List.mem_cons_self))))⟩
    · rw [hsign]
      exact ⟨0x2B, rfl, Or.inr (Or.inl rfl)⟩
    · rw [hsign]
      exact ⟨0x2D, rfl, Or.inr (Or.inr (Or.inl rfl))⟩

/-- In front of an integer whose text begins with a digit there is no white space. -/
theorem white_eq_nil {f : IntegerForm} {rest : Bytes}
    (h : ∃ b ∈ (f.text ++ rest).head?, Byte.isDigit b = true) : f.white = [] := by
  cases hw : f.white with
  | nil => rfl
  | cons w white =>
    obtain ⟨b, hb, hdigit⟩ := h
    rw [text, hw] at hb
    obtain rfl : w = b := Option.some.inj hb
    have hwhite := f.isWhite w (hw ▸ List.mem_cons_self)
    rw [Byte.not_isWhite_of_isDigit hdigit] at hwhite
    cases hwhite

/-- Without a sign, only white space keeps an integer from going on the number in front of it. -/
theorem white_ne_nil {f : IntegerForm} {rest : Bytes} (hstop : StopsNumber (f.text ++ rest))
    (hsign : f.sign = []) : f.white ≠ [] := by
  intro hw
  obtain ⟨b, digits, hdigits⟩ := List.exists_cons_of_ne_nil f.ne_nil
  have hdigit := f.isDigit b (hdigits ▸ List.mem_cons_self)
  rw [text, hw, hsign, hdigits] at hstop
  rw [Bytes.stops_cons.mp hstop.1] at hdigit
  cases hdigit

end IntegerForm

theorem Numeral.token_eq_integer {x : Numeral} {value : Int} (h : x.token = .ok (.integer value)) :
    x.fraction = none ∧ x.whole ≠ [] ∧ Decimal.fitsSigned64 value = true ∧
      value = if x.sign = [0x2D] then -(Decimal.ofDigits x.whole : Int)
        else Decimal.ofDigits x.whole := by
  unfold token at h
  split at h
  · rename_i hfraction
    dsimp only at h
    generalize hfound : (if x.isNegative = true then -(Decimal.ofDigits x.whole : Int)
      else Decimal.ofDigits x.whole) = found at h
    split at h
    · cases h
    · rename_i hok
      simp only [Bool.or_eq_true, List.isEmpty_iff, not_or, Bool.not_eq_true',
        Bool.not_eq_false] at hok
      rw [Except.ok.injEq, Token.integer.injEq] at h
      refine ⟨hfraction, hok.1, h ▸ hok.2, ?_⟩
      rw [← h, ← hfound]
      simp [isNegative]
  · split at h <;> cases h

theorem Numeral.signOf_cases (text : Bytes) :
    IsSign (signOf text) ∧ ∃ rest, text = signOf text ++ rest := by
  unfold signOf
  split
  · exact ⟨Or.inr (Or.inl rfl), _, rfl⟩
  · exact ⟨Or.inr (Or.inr rfl), _, rfl⟩
  · exact ⟨Or.inl rfl, _, rfl⟩

/-- A number without a point ends where it cannot go on. -/
theorem Numeral.frontUnsigned_of_fraction {sign unsigned : Bytes}
    (h : (frontUnsigned sign unsigned).fraction = none) :
    ∃ digits rest, unsigned = digits ++ rest ∧ (∀ b ∈ digits, Byte.isDigit b = true) ∧
      StopsNumber rest ∧ frontUnsigned sign unsigned = ⟨sign, digits, none⟩ := by
  obtain ⟨digits, rest, rfl, hdigits, hstop⟩ := Bytes.exists_run Byte.isDigit unsigned
  unfold frontUnsigned at h ⊢
  rw [Bytes.takeWhile_run hdigits hstop] at h ⊢
  dsimp only at h ⊢
  rw [List.drop_left] at h ⊢
  split at h
  · cases h
  · rename_i hpoint
    refine ⟨digits, rest, rfl, hdigits, ⟨hstop, ?_⟩, rfl⟩
    intro b hb
    refine decide_eq_false ?_
    rintro rfl
    cases rest with
    | nil => cases hb
    | cons c rest =>
      cases hb
      exact hpoint rest rfl

/-- What was read as an integer is spelled as one. -/
theorem scan_eq_integer {text : Bytes} {value : Int} {n : Nat}
    (h : scan text = (.ok (.integer value), n)) :
    ∃ (f : IntegerForm) (rest : Bytes), text = f.text ++ rest ∧ StopsNumber rest ∧
      f.value = value ∧ Decimal.fitsSigned64 value = true ∧ f.text.length = n := by
  obtain ⟨white, b, rest, m, rfl, hwhite, hb, hscan, rfl⟩ := scan_eq_ok h Token.noConfusion
  rcases scanFrom_cases hb hscan with ⟨hnumber, hlength⟩ | ⟨_, hword, _⟩ | ⟨_, _, hother⟩
  · obtain ⟨hfraction, hne, hfits, hvalue⟩ := Numeral.token_eq_integer hnumber
    obtain ⟨hsign, unsigned, hunsigned⟩ := Numeral.signOf_cases (b :: rest)
    rw [Numeral.front_eq] at hfraction hne hvalue hlength
    generalize Numeral.signOf (b :: rest) = sign at *
    rw [hunsigned, List.drop_left] at hfraction hne hvalue hlength
    obtain ⟨digits, behind, rfl, hdigits, hstop, hfront⟩ :=
      Numeral.frontUnsigned_of_fraction hfraction
    rw [hfront] at hne hvalue hlength
    refine ⟨⟨white, sign, digits, hwhite, hsign, hdigits, hne⟩, behind, ?_, hstop, hvalue.symm,
      hfits, ?_⟩
    · rw [hunsigned, IntegerForm.text, List.append_assoc, List.append_assoc]
    · simp only [Numeral.text, List.length_append, List.length_nil] at hlength
      simp only [IntegerForm.text, List.length_append]
      omega
  · rcases ofWord_cases hword with hkeyword | hnull | ⟨_, hbool⟩
    · cases hkeyword
    · cases hnull
    · cases hbool
  · exact absurd rfl (hother value)

/-! ## Keywords -/

/-- What was read as a keyword is spelled as it, and ends there. -/
theorem scan_eq_keyword {text word : Bytes} {t : Token} {n : Nat} (h : scan text = (.ok t, n))
    (hword : t.keyword? = some word) :
    ∃ white rest, text = white ++ (word ++ rest) ∧ (∀ b ∈ white, Byte.isWhite b = true) ∧
      Stops Byte.isRegular rest ∧ white.length + word.length = n := by
  obtain ⟨white, b, rest, m, rfl, hwhite, hb, hscan, rfl⟩ :=
    scan_eq_ok h (by rintro rfl; cases hword)
  rcases scanFrom_cases hb hscan with ⟨hnumber, _⟩ | ⟨hregular, hspelled, hlength⟩ | ⟨_, hother, _⟩
  · rcases Numeral.token_cases hnumber with ⟨_, rfl⟩ | ⟨_, rfl⟩ <;> cases hword
  · have hself : b :: rest.takeWhile Byte.isRegular = word := by
      rcases ofWord_cases hspelled with hkeyword | rfl | ⟨_, rfl⟩
      · exact Option.some.inj (hkeyword.symm.trans hword)
      · cases hword
      · cases hword
    rw [hself] at hlength
    refine ⟨white, rest.dropWhile Byte.isRegular, ?_, hwhite, Bytes.stops_dropWhile _ _, ?_⟩
    · rw [← hself, List.cons_append, List.takeWhile_append_dropWhile]
    · rw [hlength]
  · rw [hother] at hword
    cases hword

end Token

/-! ## Readers -/

namespace Reader

open Token (IntegerForm StopsNumber)

theorem integer_eq_ok {c c' : Cursor} {value : Int} (h : integer c = .ok value c') :
    ∃ (f : IntegerForm) (rest : Bytes), c.rest = f.text ++ rest ∧ StopsNumber rest ∧
      f.value = value ∧ Decimal.fitsSigned64 value = true ∧
      c' = ⟨c.position + f.text.length, rest⟩ := by
  obtain ⟨t, c₁, htoken, h⟩ := bind_eq_ok.mp h
  cases t with
  | integer found =>
    cases h
    obtain ⟨n, hscan, rfl⟩ := exists_scan_of_token htoken
    obtain ⟨f, rest, hrest, hstop, rfl, hfits, rfl⟩ := Token.scan_eq_integer hscan
    exact ⟨f, rest, hrest, hstop, rfl, hfits, by rw [Cursor.advance, hrest, List.drop_left]⟩
  | _ => cases h

/-- A keyword is read exactly if it is spelled out behind white space and ends there. -/
theorem expect_eq_ok {r : Reserved} {c c' : Cursor} :
    expect r.spelling c = .ok () c' ↔
      ∃ white rest, c.rest = white ++ (r.spelling ++ rest) ∧
        (∀ b ∈ white, Byte.isWhite b = true) ∧ Stops Byte.isRegular rest ∧
        c' = ⟨c.position + (white.length + r.spelling.length), rest⟩ := by
  constructor
  · intro h
    obtain ⟨t, c₁, htoken, h⟩ := bind_eq_ok.mp h
    split at h
    · rename_i hword
      cases h
      obtain ⟨n, hscan, rfl⟩ := exists_scan_of_token htoken
      obtain ⟨white, rest, hrest, hwhite, hstop, rfl⟩ := Token.scan_eq_keyword hscan hword
      refine ⟨white, rest, hrest, hwhite, hstop, ?_⟩
      rw [Cursor.advance, hrest, List.drop_length_add_append, List.drop_left]
    · cases h
  · obtain ⟨position, text⟩ := c
    rintro ⟨white, rest, rfl, hwhite, hstop, rfl⟩
    exact expect_spelling r hwhite hstop position

theorem key?_eq_some {number generation : Int} {k : Key} (h : key? number generation = some k) :
    number = k.number ∧ generation = k.generation ∧ k.generation ≤ Decimal.maxWord32 := by
  unfold key? at h
  rw [Option.ite_none_right_eq_some, Option.some.injEq] at h
  obtain ⟨hrange, rfl⟩ := h
  simp only [Bool.and_eq_true, decide_eq_true_eq] at hrange
  dsimp only
  omega

/-- What was read as a header is spelled as two integers and the keyword. -/
theorem header_eq_ok {c c' : Cursor} {k : Key} (h : header c = .ok k c') :
    ∃ (f g : IntegerForm) (gap tail : Bytes),
      c.rest = f.text ++ (g.text ++ (gap ++ (Reserved.obj.spelling ++ tail))) ∧
      StopsNumber (g.text ++ (gap ++ (Reserved.obj.spelling ++ tail))) ∧
      (∀ b ∈ gap, Byte.isWhite b = true) ∧ Stops Byte.isRegular tail ∧
      f.value = k.number ∧ g.value = k.generation ∧ k.number ≤ Decimal.maxSigned64 ∧
      k.generation ≤ Decimal.maxWord32 ∧
      c' = ⟨c.position + (f.text ++ (g.text ++ (gap ++ Reserved.obj.spelling))).length, tail⟩ := by
  unfold header at h
  dsimp only at h
  split at h
  · cases h
  · rename_i number generation c₃ hparts
    split at h
    · rename_i key hkey
      cases h
      obtain ⟨_, c₁, hnumber, hparts⟩ := bind_eq_ok.mp hparts
      obtain ⟨_, c₂, hgeneration, hparts⟩ := bind_eq_ok.mp hparts
      obtain ⟨_, _, hobj, hparts⟩ := bind_eq_ok.mp hparts
      cases hparts
      obtain ⟨hk, hk', hrange⟩ := key?_eq_some hkey
      obtain ⟨f, rest, hrest, hstop, hf, hfits, rfl⟩ := integer_eq_ok hnumber
      obtain ⟨g, rest', hrest', hstop', hg, _, rfl⟩ := integer_eq_ok hgeneration
      obtain ⟨gap, tail, hrest'', hgap, hends, rfl⟩ := expect_eq_ok.mp hobj
      dsimp only at hrest' hrest''
      subst hrest'' hrest'
      refine ⟨f, g, gap, tail, hrest, hstop, hgap, hends, hf.trans hk, hg.trans hk', ?_, hrange, ?_⟩
      · simp only [Decimal.fitsSigned64, Bool.and_eq_true, decide_eq_true_eq] at hfits
        omega
      · simp only [List.length_append, Nat.add_assoc]
    · cases h

end Reader

end CrossReference
