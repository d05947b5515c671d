import CrossReference.Filter.Ascii
import CrossReference.Proofs.Bytes.Word

set_option autoImplicit false

/-! # Data in base 85

What is written in digits of base 85 is read back (`decodeAscii85_encoded`). `Base85` says how data
may be written: four bytes as five digits, four zeros in short, and a few last bytes as the first
digits of the group that zeros would complete. White space may stand anywhere between the digits,
since the decoder does not see it (`base85From_filter`).

The last group is the one place where the decoder has to guess: it takes the greatest digit for each
one that is missing. This cannot spoil the bytes that are kept. The digits that are cut off count
for less than `85 ^ m`, so the number grows by less than `256 ^ m`, and it does not reach the next
multiple (`div_padded`). -/

namespace CrossReference.Filter

/-! ## Encoding -/

/-- The last digits of a number in base 85, most significant digit first. Zero is written `!`. -/
def base85Digits (value : Nat) : (count : Nat) → Bytes
  | 0 => []
  | count + 1 => base85Digits (value / 85) count ++ [UInt8.ofNat (0x21 + value % 85)]

/-- The digits of less than four bytes: the first ones of the group that zeros would complete, one
    more than there are bytes. -/
def base85Tail (bytes : Bytes) : Bytes :=
  (base85Digits (Bytes.toNat (bytes ++ List.replicate (4 - bytes.length) 0)) 5).take
    (bytes.length + 1)

/-- The digits that data may be written with. -/
inductive Base85 : (data digits : Bytes) → Prop where
  /-- No data, no digits. -/
  | done : Base85 [] []
  /-- The last bytes, if they are no whole group. -/
  | tail {bytes : Bytes} (some : bytes ≠ []) (short : bytes.length < 4) :
    Base85 bytes (base85Tail bytes)
  /-- Four bytes in five digits. -/
  | group {bytes data digits : Bytes} (whole : bytes.length = 4) (rest : Base85 data digits) :
    Base85 (bytes ++ data) (base85Digits (Bytes.toNat bytes) 5 ++ digits)
  /-- Four zeros, in short. -/
  | zeros {data digits : Bytes} (rest : Base85 data digits) :
    Base85 (0 :: 0 :: 0 :: 0 :: data) (0x7A :: digits)

/-- All data can be written. -/
theorem exists_base85 (data : Bytes) : ∃ digits, Base85 data digits := by
  by_cases hshort : data.length < 4
  · by_cases hnil : data = []
    · exact ⟨[], hnil ▸ .done⟩
    · exact ⟨_, .tail hnil hshort⟩
  · have hwhole : (data.take 4).length = 4 := by
      rw [List.length_take]
      omega
    obtain ⟨digits, hrest⟩ := exists_base85 (data.drop 4)
    rw [← List.take_append_drop 4 data]
    exact ⟨_, .group hwhole hrest⟩
termination_by data.length
decreasing_by
  rw [List.length_drop]
  omega

/-! ## Digits -/

/-- A digit of base 85. -/
def IsDigit85 (b : UInt8) : Prop := 0x21 ≤ b ∧ b ≤ 0x75

instance (b : UInt8) : Decidable (IsDigit85 b) := inferInstanceAs (Decidable (_ ∧ _))

theorem ne_of_isDigit85 {b c : UInt8} (h : IsDigit85 b) (hc : ¬IsDigit85 c) : b ≠ c :=
  fun he => hc (he ▸ h)

theorem toNat_digit (value : Nat) :
    (UInt8.ofNat (0x21 + value % 85)).toNat = 0x21 + value % 85 := by
  rw [UInt8.toNat_ofNat']
  omega

theorem isDigit85_digit (value : Nat) : IsDigit85 (UInt8.ofNat (0x21 + value % 85)) := by
  rw [IsDigit85, UInt8.le_iff_toNat_le, UInt8.le_iff_toNat_le, toNat_digit]
  change 33 ≤ _ ∧ _ ≤ 117
  omega

theorem isDigit85_digits {value count : Nat} : ∀ d ∈ base85Digits value count, IsDigit85 d := by
  induction count generalizing value with
  | zero => exact fun d hd => (List.not_mem_nil hd).elim
  | succ count ih =>
    intro d hd
    rcases List.mem_append.mp hd with hd | hd
    · exact ih d hd
    · exact List.mem_singleton.mp hd ▸ isDigit85_digit value

@[simp] theorem length_base85Digits (value count : Nat) :
    (base85Digits value count).length = count := by
  induction count generalizing value with
  | zero => rfl
  | succ count ih => simp [base85Digits, ih]

/-- The first digits of a number are those of its quotient. -/
theorem take_base85Digits (value n m : Nat) :
    (base85Digits value (n + m)).take n = base85Digits (value / 85 ^ m) n := by
  induction m generalizing value with
  | zero => simp [List.take_of_length_le]
  | succ m ih =>
    have hle : n ≤ (base85Digits (value / 85) (n + m)).length := by
      rw [length_base85Digits]
      exact Nat.le_add_right n m
    rw [← Nat.add_assoc, base85Digits, List.take_append_of_le_length hle, ih,
      Nat.div_div_eq_div_mul, Nat.pow_succ']

theorem base85Value_snoc (digits : Bytes) (d : UInt8) :
    base85Value (digits ++ [d]) = base85Value digits * 85 + (d.toNat - 0x21) :=
  List.foldl_append

/-- A number is read back from its digits, as far as they go. -/
theorem base85Value_digits (value count : Nat) :
    base85Value (base85Digits value count) = value % 85 ^ count := by
  induction count generalizing value with
  | zero => simp [base85Digits, base85Value, Nat.mod_one]
  | succ count ih =>
    rw [base85Digits, base85Value_snoc, ih, toNat_digit, Nat.pow_succ', Nat.mod_mul]
    omega

/-- Digits behind which the greatest ones stand: the number in front of the next multiple. -/
theorem base85Value_padded (digits : Bytes) (m : Nat) :
    base85Value (digits ++ List.replicate m 0x75) + 1 = (base85Value digits + 1) * 85 ^ m := by
  induction m with
  | zero => simp
  | succ m ih =>
    rw [List.replicate_succ', ← List.append_assoc, base85Value_snoc, Nat.pow_succ, ← Nat.mul_assoc,
      ← ih]
    change _ + 84 + 1 = _
    omega

/-! ## The last group -/

/-- A number that is cut off below a digit of base 85 and filled up with the greatest digits grows,
    and yet stays below the next multiple of the same power of 256. -/
theorem div_padded {bytes m value : Nat} (h : value + 1 = (bytes * 256 ^ m / 85 ^ m + 1) * 85 ^ m) :
    value / 256 ^ m = bytes := by
  have hpow : 85 ^ m ≤ 256 ^ m := Nat.pow_le_pow_left (by decide) m
  have hcut : bytes * 256 ^ m / 85 ^ m * 85 ^ m ≤ bytes * 256 ^ m := Nat.div_mul_le_self _ _
  have hgrown : bytes * 256 ^ m < (bytes * 256 ^ m / 85 ^ m + 1) * 85 ^ m :=
    Nat.lt_mul_of_div_lt (Nat.lt_succ_self _) (Nat.pow_pos (by decide))
  rw [Nat.succ_mul] at h hgrown
  refine Nat.div_eq_of_lt_le ?_ ?_
  · omega
  · rw [Nat.succ_mul]
    omega

/-- The last bytes as a number. -/
theorem base85Value_tail {bytes : Bytes} {m : Nat} (hlength : bytes.length + m = 4) :
    base85Value (base85Tail bytes) = Bytes.toNat bytes * 256 ^ m / 85 ^ m := by
  have hm : 4 - bytes.length = m := by omega
  have hcount : 5 = bytes.length + 1 + m := by omega
  have hlt : Bytes.toNat bytes * 256 ^ m < 85 ^ 5 := by
    have hpow : 0 < 256 ^ m := Nat.pow_pos (by decide)
    have hbytes := Nat.mul_lt_mul_of_pos_right (Bytes.toNat_lt bytes) hpow
    rw [← Nat.pow_add, hlength] at hbytes
    exact Nat.lt_trans hbytes (by decide)
  have hquotient : Bytes.toNat bytes * 256 ^ m / 85 ^ m < 85 ^ (bytes.length + 1) := by
    rw [Nat.div_lt_iff_lt_mul (Nat.pow_pos (by decide)), ← Nat.pow_add, ← hcount]
    exact hlt
  rw [base85Tail, hm, Bytes.toNat_append_zeros, hcount, take_base85Digits, base85Value_digits,
    Nat.mod_eq_of_lt hquotient]

theorem isDigit85_tail {bytes : Bytes} : ∀ d ∈ base85Tail bytes, IsDigit85 d :=
  fun d hd => isDigit85_digits d (List.mem_of_mem_take hd)

theorem length_base85Tail {bytes : Bytes} (hshort : bytes.length < 4) :
    (base85Tail bytes).length = bytes.length + 1 := by
  rw [base85Tail, List.length_take, length_base85Digits]
  omega

/-- Filling up the last group with the greatest digits gives a number of 32 bits, and does not
    change the bytes in front. -/
theorem padded_tail {bytes : Bytes} (hlength : bytes.length < 4) :
    let value := base85Value (base85Tail bytes ++ List.replicate (4 - bytes.length) 0x75)
    value < 2 ^ 32 ∧ (Bytes.bigEndian value 4).take bytes.length = bytes := by
  intro value
  obtain ⟨m, hmissing⟩ : ∃ m, 4 - bytes.length = m := ⟨_, rfl⟩
  have hm : bytes.length + m = 4 := by omega
  have hvalue : value + 1 = (Bytes.toNat bytes * 256 ^ m / 85 ^ m + 1) * 85 ^ m := by
    rw [← base85Value_tail hm, ← base85Value_padded, ← hmissing]
  have hdiv : value / 256 ^ m = Bytes.toNat bytes := div_padded hvalue
  constructor
  · have hbytes := Bytes.toNat_lt bytes
    rw [← hdiv, Nat.div_lt_iff_lt_mul (Nat.pow_pos (by decide)), ← Nat.pow_add, hm] at hbytes
    exact hbytes
  · rw [← hm, Bytes.take_bigEndian, hdiv, Bytes.bigEndian_toNat]

theorem base85Group_of_lt {digits : Bytes} (h : base85Value digits < 2 ^ 32) :
    base85Group digits = .ok (Bytes.bigEndian (base85Value digits) 4) :=
  if_pos (Nat.le_of_lt_succ h)

theorem finishBase85_of_two {acc group : Bytes} (h : 2 ≤ group.length) :
    finishBase85 acc group =
      (base85Group (group.reverse ++ List.replicate (5 - group.length) 0x75)).map fun bytes =>
        acc.reverse ++ bytes.take (group.length - 1) := by
  match group, h with
  | last :: before :: first, _ =>
    change base85Group _ >>= _ = _
    cases base85Group ((last :: before :: first).reverse ++
      List.replicate (5 - (last :: before :: first).length) 0x75) <;> rfl

theorem finishBase85_tail {bytes : Bytes} (hsome : bytes ≠ []) (hshort : bytes.length < 4)
    (acc : Bytes) : finishBase85 acc (base85Tail bytes).reverse = .ok (acc.reverse ++ bytes) := by
  have hpos : 0 < bytes.length := List.length_pos_iff.mpr hsome
  have hlength : (base85Tail bytes).reverse.length = bytes.length + 1 := by
    rw [List.length_reverse, length_base85Tail hshort]
  have hmissing : 5 - (bytes.length + 1) = 4 - bytes.length := by omega
  obtain ⟨hlt, hbytes⟩ := padded_tail hshort
  rw [finishBase85_of_two (by omega), hlength, List.reverse_reverse, hmissing,
    base85Group_of_lt hlt, Except.map, Nat.add_sub_cancel, hbytes]

/-! ## Decoding -/

theorem not_isWhite_of_isDigit85 {b : UInt8} (h : IsDigit85 b) : Byte.isWhite b = false := by
  have hne {c : UInt8} (hc : ¬IsDigit85 c) : b ≠ c := ne_of_isDigit85 h hc
  have hcontrol : b ≠ 0x00 ∧ b ≠ 0x09 ∧ b ≠ 0x0A ∧ b ≠ 0x0C ∧ b ≠ 0x0D :=
    ⟨hne (by decide), hne (by decide), hne (by decide), hne (by decide), hne (by decide)⟩
  have hspace : b ≠ 0x20 := hne (by decide)
  simp [Byte.isWhite, hcontrol, hspace]

/-- The decoder does not see white space. -/
theorem base85From_filter (acc group text : Bytes) :
    base85From acc group (text.filter fun b => !Byte.isWhite b) = base85From acc group text := by
  induction text generalizing acc group with
  | nil => rfl
  | cons b rest ih =>
    cases hwhite : Byte.isWhite b with
    | true => simp [base85From, hwhite, ih]
    | false => simp [base85From, hwhite, ih]

/-- A digit joins its group, or completes it. -/
theorem base85From_digit {b : UInt8} (h : IsDigit85 b) (acc group rest : Bytes) :
    base85From acc group (b :: rest) =
      if group.length < 4 then base85From acc (b :: group) rest
      else
        match base85Group (b :: group).reverse with
        | .ok bytes => base85From (bytes.reverse ++ acc) [] rest
        | .error fault => .error fault := by
  have hwhite : ¬Byte.isWhite b = true := by simp [not_isWhite_of_isDigit85 h]
  have hmark : b ≠ 0x7E := ne_of_isDigit85 h (by decide)
  have hshort : ¬(b = 0x7A && group.isEmpty) = true := by
    have : b ≠ 0x7A := ne_of_isDigit85 h (by decide)
    simp [this]
  have hdigit : (0x21 ≤ b && b ≤ 0x75) = true := by simp [h.1, h.2]
  rw [base85From, if_neg hwhite, if_neg hmark]
  exact (if_neg hshort).trans (if_pos hdigit)

theorem base85From_digits {digits : Bytes} (h : ∀ d ∈ digits, IsDigit85 d) {group : Bytes}
    (hlength : group.length + digits.length ≤ 4) (acc rest : Bytes) :
    base85From acc group (digits ++ rest) = base85From acc (digits.reverse ++ group) rest := by
  induction digits generalizing group with
  | nil => rfl
  | cons d digits ih =>
    obtain ⟨hd, hdigits⟩ := List.forall_mem_cons.mp h
    rw [List.length_cons] at hlength
    have hmore : (d :: group).length + digits.length ≤ 4 := by
      rw [List.length_cons]
      omega
    rw [List.cons_append, base85From_digit hd, if_pos (by omega), ih hdigits hmore,
      List.reverse_cons, List.append_assoc, List.singleton_append]

/-- A whole group is decoded to its bytes. -/
theorem base85From_group {bytes : Bytes} (hwhole : bytes.length = 4) (acc rest : Bytes) :
    base85From acc [] (base85Digits (Bytes.toNat bytes) 5 ++ rest) =
      base85From (bytes.reverse ++ acc) [] rest := by
  have hlt : Bytes.toNat bytes < 2 ^ 32 := by
    have := Bytes.toNat_lt bytes
    rwa [hwhole] at this
  have hvalue : base85Value (base85Digits (Bytes.toNat bytes) 5) = Bytes.toNat bytes := by
    rw [base85Value_digits]
    exact Nat.mod_eq_of_lt (Nat.lt_trans hlt (by decide))
  have hgroup : base85Group (base85Digits (Bytes.toNat bytes) 5) = .ok bytes := by
    rw [base85Group_of_lt (by rwa [hvalue]), hvalue, ← hwhole, Bytes.bigEndian_toNat]
  -- four digits are waiting when the fifth one comes
  rw [base85Digits] at hgroup ⊢
  rw [List.append_assoc, List.singleton_append, base85From_digits isDigit85_digits (by simp),
    base85From_digit (isDigit85_digit _), if_neg (by simp)]
  simp only [List.append_nil, List.reverse_cons, List.reverse_reverse, hgroup]

/-- What may stand behind the last digit: nothing, or the mark of the end and anything. -/
def Closes85 (closing : Bytes) : Prop := closing = [] ∨ ∃ more, closing = ascii "~>" ++ more

theorem base85From_closing {closing : Bytes} (h : Closes85 closing) (acc group : Bytes) :
    base85From acc group closing = finishBase85 acc group := by
  rcases h with rfl | ⟨more, rfl⟩
  · rfl
  · rfl

/-- Digits are decoded to what was written with them, behind what was decoded before. -/
theorem base85From_written {data digits : Bytes} (h : Base85 data digits) {closing : Bytes}
    (hclosing : Closes85 closing) (acc : Bytes) :
    base85From acc [] (digits ++ closing) = .ok (acc.reverse ++ data) := by
  induction h generalizing acc with
  | done =>
    rw [List.nil_append, base85From_closing hclosing, List.append_nil]
    rfl
  | tail hsome hshort =>
    have hlength := length_base85Tail hshort
    rw [base85From_digits isDigit85_tail (by rw [List.length_nil]; omega), List.append_nil,
      base85From_closing hclosing, finishBase85_tail hsome hshort]
  | @group bytes data digits hwhole _ ih =>
    rw [List.append_assoc, base85From_group hwhole, ih, List.reverse_append, List.reverse_reverse,
      List.append_assoc]
  | zeros _ ih =>
    have hstep : ∀ rest, base85From acc [] (0x7A :: rest) =
        base85From (0 :: 0 :: 0 :: 0 :: acc) [] rest := fun _ => rfl
    rw [List.cons_append, hstep, ih]
    simp

/-! ## The mark in front -/

/-- The mark of the end is no digit. -/
theorem Base85.not_mem {data digits : Bytes} (h : Base85 data digits) : 0x7E ∉ digits := by
  have hnot : ¬IsDigit85 0x7E := by decide
  induction h with
  | done => exact List.not_mem_nil
  | tail => exact fun hmem => hnot (isDigit85_tail _ hmem)
  | group _ _ ih =>
    intro hmem
    rcases List.mem_append.mp hmem with hmem | hmem
    · exact hnot (isDigit85_digits _ hmem)
    · exact ih hmem
  | zeros _ ih =>
    intro hmem
    rcases List.mem_cons.mp hmem with heq | hmem
    · exact absurd heq (by decide)
    · exact ih hmem

/-- A digit does not stand alone. -/
theorem Base85.ne_singleton {data digits : Bytes} (h : Base85 data digits) {d : UInt8}
    (hd : IsDigit85 d) : digits ≠ [d] := by
  intro heq
  have hlength := congrArg List.length heq
  cases h with
  | done => cases heq
  | tail hsome hshort =>
    have hpos := List.length_pos_iff.mpr hsome
    rw [length_base85Tail hshort, List.length_singleton] at hlength
    omega
  | group =>
    rw [List.length_append, length_base85Digits, List.length_singleton] at hlength
    omega
  | zeros =>
    obtain rfl := (List.cons.inj heq).1
    exact absurd hd (by decide)

/-- Without a mark in front, data is not taken to have one. -/
theorem not_marked {data text : Bytes} (h : Base85 data (text.filter fun b => !Byte.isWhite b))
    {closing : Bytes} (hclosing : Closes85 closing) (rest : Bytes) :
    text ++ closing ≠ 0x3C :: 0x7E :: rest := by
  intro heq
  match text, h with
  | [], _ =>
    rcases hclosing with rfl | ⟨more, rfl⟩
    · cases heq
    · exact absurd (List.cons.inj heq).1 (by decide)
  | [b], h =>
    obtain rfl : b = 0x3C := (List.cons.inj heq).1
    exact h.ne_singleton (by decide) rfl
  | b :: b' :: text, h =>
    obtain rfl : b' = 0x7E := (List.cons.inj (List.cons.inj heq).2).1
    exact h.not_mem (List.mem_filter.mpr ⟨by simp, by decide⟩)

theorem decodeAscii85_of_unmarked {text : Bytes} (h : ∀ rest, text ≠ 0x3C :: 0x7E :: rest) :
    decodeAscii85 text = base85From [] [] text := by
  unfold decodeAscii85
  split
  · exact absurd rfl (h _)
  · rfl

/-- Decoding undoes encoding in base 85, for all data, in whatever way it is written, with white
    space anywhere between the digits, with or without the mark in front, and with or without the
    mark behind, whatever follows that. In particular the last group is filled up to a number of 32
    bits that begins with the bytes that were written. -/
theorem decodeAscii85_encoded :
    (∀ data digits text front closing : Bytes, Base85 data digits →
      text.filter (fun b => !Byte.isWhite b) = digits → (front = [] ∨ front = ascii "<~") →
      Closes85 closing → decodeAscii85 (front ++ text ++ closing) = .ok data) ∧
    (∀ data, ∃ digits, Base85 data digits) ∧
    ∀ bytes : Bytes, bytes ≠ [] → bytes.length < 4 →
      let value := base85Value (base85Tail bytes ++ List.replicate (4 - bytes.length) 0x75)
      value < 2 ^ 32 ∧ (Bytes.bigEndian value 4).take bytes.length = bytes := by
  refine ⟨?_, exists_base85, fun _ _ hshort => padded_tail hshort⟩
  rintro data _ text front closing written rfl hfront hclosing
  have hread : base85From [] [] (text ++ closing) = .ok data := by
    -- what stands behind the mark of the end matters as little with its white space as without
    have hclosing' : Closes85 (closing.filter fun b => !Byte.isWhite b) := by
      rcases hclosing with rfl | ⟨more, rfl⟩
      · exact Or.inl rfl
      · exact Or.inr ⟨more.filter fun b => !Byte.isWhite b, List.filter_append _ _⟩
    rw [← base85From_filter, List.filter_append, base85From_written written hclosing']
    rfl
  rcases hfront with rfl | rfl
  · rw [List.nil_append, decodeAscii85_of_unmarked (not_marked written hclosing), hread]
  · exact hread

/-- Ten bytes, with four zeros among them and two at the end, in broken lines between both marks. -/
theorem brokenLines_decoded :
    decodeAscii85 (ascii "<~9jq o^\n z9j\tn~>9") =
      .ok (ascii "Man " ++ 0 :: 0 :: 0 :: 0 :: ascii "Ma") := by
  have hlast : Base85 (ascii "Ma") (base85Tail (ascii "Ma")) := .tail (by decide) (by decide)
  exact decodeAscii85_encoded.1 _ _ (ascii "9jq o^\n z9j\tn") (ascii "<~") (ascii "~>9")
    (.group rfl (.zeros hlast)) (by decide +kernel) (.inr rfl) (.inr ⟨ascii "9", rfl⟩)

end CrossReference.Filter
