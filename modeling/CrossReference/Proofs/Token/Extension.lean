import CrossReference.Proofs.Token.Words

set_option autoImplicit false

/-! # Tokens in a longer text

A document is updated by adding to it, behind a line feed. What could be read before is still read
in the same way, as long as the reader did not come upon the end: a line feed ends a token just as
the end does, and a token that is closed by a byte of its own is not touched by what follows.
`scan_extend` says so for one token. -/

namespace CrossReference

namespace Token

/-! ## How far the reader of tokens goes -/

theorem nameRest_le (acc : Bytes) (n : Nat) (text : Bytes) :
    (nameRest acc n text).2 ≤ n + text.length := by
  fun_induction nameRest acc n text <;> simp_all only [List.length_nil, List.length_cons] <;> omega

theorem stringRest_le (s : StringState) (n : Nat) (text : Bytes) :
    (stringRest s n text).2 ≤ n + text.length := by
  fun_induction stringRest s n text <;> simp_all only [List.length_nil, List.length_cons] <;> omega

theorem hexStringRest_le (acc : List UInt8) (n : Nat) (text : Bytes) :
    (hexStringRest acc n text).2 ≤ n + text.length := by
  fun_induction hexStringRest acc n text <;>
    simp_all only [List.length_nil, List.length_cons] <;> omega

namespace Numeral

theorem signOf_cons (b : UInt8) (rest rest' : Bytes) :
    signOf (b :: rest) = signOf (b :: rest') := by
  unfold signOf
  split <;> split <;> simp_all

theorem length_signOf_le (text : Bytes) : (signOf text).length ≤ text.length := by
  unfold signOf
  split <;> simp

theorem length_frontUnsigned_le (sign unsigned : Bytes) :
    (frontUnsigned sign unsigned).text.length ≤ sign.length + unsigned.length := by
  obtain ⟨whole, tail, rfl, hwhole, htail⟩ := Bytes.exists_run Byte.isDigit unsigned
  unfold frontUnsigned
  rw [Bytes.takeWhile_run hwhole htail]
  dsimp only
  rw [List.drop_left]
  split
  · rename_i rest
    have hle : (rest.takeWhile Byte.isDigit).length ≤ rest.length :=
      (List.takeWhile_prefix Byte.isDigit).length_le
    simp only [text, List.length_append, List.length_cons]
    omega
  · simp only [text, List.length_append, List.length_nil]
    omega

theorem length_front_le (text : Bytes) : (front text).text.length ≤ text.length := by
  have hle := length_frontUnsigned_le (signOf text) (text.drop (signOf text).length)
  have hsign := length_signOf_le text
  rw [front_eq]
  rw [List.length_drop] at hle
  omega

end Numeral

theorem scanFrom_le (b : UInt8) (rest : Bytes) : (scanFrom b rest).2 ≤ rest.length + 1 := by
  have hline : (Bytes.line rest).length ≤ rest.length := (List.takeWhile_prefix _).length_le
  have hname := nameRest_le [] 1 rest
  have hstring := stringRest_le {} 1 rest
  have hhex := hexStringRest_le [] 1 rest
  have hfront := Numeral.length_front_le (b :: rest)
  have hword : (rest.takeWhile Byte.isRegular).length ≤ rest.length :=
    (List.takeWhile_prefix _).length_le
  rw [List.length_cons] at hfront
  unfold scanFrom
  dsimp only
  split
  · dsimp only
    omega
  split
  · dsimp only
    omega
  split
  · dsimp only
    omega
  split
  · split
    · simp
    · dsimp only
      omega
  split
  · split <;> simp
  split
  · simp
  split
  · simp
  split
  · exact hfront
  split
  · simp
  · simp only [List.length_cons]
    omega

/-- The reader of tokens does not go beyond the end. -/
theorem scan_le (text : Bytes) : (scan text).2 ≤ text.length := by
  obtain ⟨white, tail, rfl, hwhite, hstop⟩ := Bytes.exists_run Byte.isWhite text
  unfold scan
  rw [Bytes.takeWhile_run hwhite hstop]
  dsimp only
  rw [List.drop_left]
  cases tail with
  | nil => simp
  | cons b rest =>
    have hle := scanFrom_le b rest
    simp only [List.length_append, List.length_cons]
    omega

/-! ## Tokens that end before the end -/

variable (more : Bytes)

theorem nameRest_extend {acc : Bytes} {n m : Nat} {text : Bytes} {x : Name}
    (h : nameRest acc n text = (.ok x, m)) :
    nameRest acc n (text ++ 0x0A :: more) = (.ok x, m) := by
  fun_induction nameRest acc n text with
  | case1 acc n =>
    rw [← h, List.nil_append, nameRest.eq_def]
    rfl
  | case2 acc n b rest hb =>
    rw [← h, List.cons_append, nameRest.eq_def]
    dsimp only
    rw [if_pos hb]
  | case3 => cases h
  | case4 => cases h
  | case5 acc n high low rest high' low' hhigh hlow hb ih =>
    rw [← ih h, List.cons_append, List.cons_append, List.cons_append, nameRest.eq_def]
    dsimp only
    rw [if_neg hb, if_pos rfl, hhigh, hlow]
  | case6 => cases h
  | case7 acc n b rest hb hescape ih =>
    rw [← ih h, List.cons_append, nameRest.eq_def]
    dsimp only
    rw [if_neg hb, if_neg hescape]

theorem stringRest_extend {s : StringState} {n m : Nat} {text : Bytes} {x : Bytes}
    (h : stringRest s n text = (.ok x, m)) :
    stringRest s n (text ++ 0x0A :: more) = (.ok x, m) := by
  fun_induction stringRest s n text with
  | case1 => cases h
  | case2 s n b rest s' hopen ih => rw [← ih h, List.cons_append, stringRest, if_pos hopen]
  | case3 s n b rest s' hclosed => rw [← h, List.cons_append, stringRest, if_neg hclosed]

theorem hexStringRest_extend {acc : List UInt8} {n m : Nat} {text : Bytes} {x : Bytes}
    (h : hexStringRest acc n text = (.ok x, m)) :
    hexStringRest acc n (text ++ 0x0A :: more) = (.ok x, m) := by
  fun_induction hexStringRest acc n text with
  | case1 => cases h
  | case2 acc n rest => rw [← h, List.cons_append, hexStringRest, if_pos rfl]
  | case3 acc n b rest hb hwhite ih =>
    rw [← ih h, List.cons_append, hexStringRest, if_neg hb, if_pos hwhite]
  | case4 acc n b rest hb hwhite digit hdigit ih =>
    rw [← ih h, List.cons_append, hexStringRest, if_neg hb, if_neg hwhite, hdigit]
  | case5 => cases h

theorem line_extend (text : Bytes) : Bytes.line (text ++ 0x0A :: more) = Bytes.line text :=
  Bytes.takeWhile_append_cons (by decide) text more

theorem Numeral.frontUnsigned_extend (sign unsigned : Bytes) :
    frontUnsigned sign (unsigned ++ 0x0A :: more) = frontUnsigned sign unsigned := by
  obtain ⟨whole, tail, rfl, hwhole, htail⟩ := Bytes.exists_run Byte.isDigit unsigned
  have htail' : Bytes.Stops Byte.isDigit (tail ++ 0x0A :: more) :=
    Bytes.stops_append htail (Bytes.stops_cons.mpr (by decide))
  unfold frontUnsigned
  rw [List.append_assoc, Bytes.takeWhile_run hwhole htail', Bytes.takeWhile_run hwhole htail]
  dsimp only
  rw [List.drop_left, List.drop_left]
  cases tail with
  | nil => rfl
  | cons b rest =>
    rw [List.cons_append]
    by_cases hb : b = 0x2E
    · subst hb
      simp only [Bytes.takeWhile_append_cons (p := Byte.isDigit) (b := 0x0A) (by decide)]
    · simp [hb]

theorem Numeral.front_extend (b : UInt8) (rest : Bytes) :
    front (b :: (rest ++ 0x0A :: more)) = front (b :: rest) := by
  rw [front_eq, front_eq, signOf_cons b (rest ++ 0x0A :: more) rest, ← List.cons_append,
    Bytes.drop_append_of_le (length_signOf_le _), frontUnsigned_extend]

theorem exists_of_map_ok {α β : Type} {f : α → β} {taken : Taken α} {y : β} {n : Nat}
    (h : (taken.1.map f, taken.2) = (.ok y, n)) : ∃ x, taken = (.ok x, n) ∧ y = f x := by
  obtain ⟨_ | x, m⟩ := taken
  · cases h
  · cases h
    exact ⟨x, rfl, rfl⟩

/-- Behind an opening angle bracket a dictionary opens or a hexadecimal string goes on. -/
theorem scanFrom_open_extend {rest : Bytes} {t : Token} {n : Nat}
    (h : scanFrom 0x3C rest = (.ok t, n)) :
    scanFrom 0x3C (rest ++ 0x0A :: more) = (.ok t, n) := by
  cases rest with
  | nil => cases h
  | cons c rest =>
    by_cases hc : c = 0x3C
    · subst hc
      exact h
    · have hstring : ∀ tail, scanFrom 0x3C (c :: tail) =
          ((hexStringRest [] 1 (c :: tail)).1.map .string,
            (hexStringRest [] 1 (c :: tail)).2) := by
        intro tail
        simp [scanFrom, hc]
      rw [hstring] at h
      obtain ⟨found, hfound, rfl⟩ := exists_of_map_ok h
      rw [List.cons_append, hstring, ← List.cons_append, hexStringRest_extend more hfound]
      rfl

/-- A closing angle bracket is only read together with a second one. -/
theorem scanFrom_close_extend {rest : Bytes} {t : Token} {n : Nat}
    (h : scanFrom 0x3E rest = (.ok t, n)) :
    scanFrom 0x3E (rest ++ 0x0A :: more) = (.ok t, n) := by
  cases rest with
  | nil => cases h
  | cons c rest =>
    by_cases hc : c = 0x3E
    · subst hc
      exact h
    · simp [scanFrom, hc] at h

theorem scanFrom_extend {b : UInt8} {rest : Bytes} {t : Token} {n : Nat}
    (h : scanFrom b rest = (.ok t, n)) : scanFrom b (rest ++ 0x0A :: more) = (.ok t, n) := by
  by_cases hopen : b = 0x3C
  · subst hopen
    exact scanFrom_open_extend more h
  by_cases hclose : b = 0x3E
  · subst hclose
    exact scanFrom_close_extend more h
  -- the other cases are those of the definition, in their order
  unfold scanFrom at h ⊢
  dsimp only at h ⊢
  by_cases hcomment : b = 0x25
  · rw [if_pos hcomment] at h ⊢
    rw [line_extend]
    exact h
  rw [if_neg hcomment] at h ⊢
  by_cases hname : b = 0x2F
  · rw [if_pos hname] at h ⊢
    obtain ⟨found, hfound, rfl⟩ := exists_of_map_ok h
    rw [nameRest_extend more hfound]
    rfl
  rw [if_neg hname] at h ⊢
  by_cases hstring : b = 0x28
  · rw [if_pos hstring] at h ⊢
    obtain ⟨found, hfound, rfl⟩ := exists_of_map_ok h
    rw [stringRest_extend more hfound]
    rfl
  rw [if_neg hstring, if_neg hopen, if_neg hclose] at h ⊢
  by_cases harray : b = 0x5B
  · rw [if_pos harray] at h ⊢
    exact h
  rw [if_neg harray] at h ⊢
  by_cases harray' : b = 0x5D
  · rw [if_pos harray'] at h ⊢
    exact h
  rw [if_neg harray'] at h ⊢
  split at h
  · rename_i hnumber
    rw [if_pos hnumber, Numeral.front_extend]
    exact h
  · rename_i hnumber
    rw [if_neg hnumber]
    split at h
    · cases h
    · rename_i hdelimiter
      rw [if_neg hdelimiter, Bytes.takeWhile_append_cons (by decide)]
      exact h

/-- A token that is not the end is read in the same way if a line feed and more follow. -/
theorem scan_extend {text : Bytes} {t : Token} {n : Nat} (h : scan text = (.ok t, n))
    (hend : t ≠ .eof) : scan (text ++ 0x0A :: more) = (.ok t, n) := by
  obtain ⟨white, tail, rfl, hwhite, hstop⟩ := Bytes.exists_run Byte.isWhite text
  rw [List.append_assoc, scan_white hwhite]
  rw [scan_white hwhite] at h
  cases tail with
  | nil =>
    obtain rfl := Except.ok.inj (congrArg Prod.fst h)
    exact absurd rfl hend
  | cons b rest =>
    have hb := Bytes.stops_cons.mp hstop
    rw [List.cons_append, scan_of_not_white hb]
    rw [scan_of_not_white hb] at h
    obtain ⟨hfound, rfl⟩ := Prod.mk.inj h
    rw [scanFrom_extend more (Prod.ext hfound rfl)]

/-! ## Comments -/

theorem skipLength_bounds (inComment : Bool) (n : Nat) (text : Bytes) :
    n ≤ skipLength inComment n text ∧ skipLength inComment n text ≤ n + text.length := by
  fun_induction skipLength inComment n text <;> simp_all only [List.length_nil, List.length_cons] <;>
    omega

/-- White space and comments in front of a token are passed over in the same way if more follows. -/
theorem skipLength_extend {inComment : Bool} {n : Nat} {text : Bytes}
    (h : skipLength inComment n text < n + text.length) :
    skipLength inComment n (text ++ 0x0A :: more) = skipLength inComment n text := by
  induction text generalizing inComment n with
  | nil => exact absurd h (Nat.not_lt.mpr (skipLength_bounds inComment n []).1)
  | cons b rest ih =>
    -- the run stops inside the text, so it also stops inside the rest
    have hstep : n + (b :: rest).length = n + 1 + rest.length := by
      rw [List.length_cons]
      omega
    rw [hstep] at h
    rw [List.cons_append]
    unfold skipLength at h ⊢
    split at h
    · rename_i hin
      rw [if_pos hin, if_pos hin]
      exact ih h
    · rename_i hin
      rw [if_neg hin, if_neg hin]
      split at h
      · rename_i hwhite
        rw [if_pos hwhite, if_pos hwhite]
        exact ih h
      · rename_i hwhite
        rw [if_neg hwhite, if_neg hwhite]
        split at h
        · rename_i hcomment
          rw [if_pos hcomment, if_pos hcomment]
          exact ih h
        · rename_i hcomment
          rw [if_neg hcomment, if_neg hcomment]

end Token

/-! ## Readers in a longer document -/

namespace Cursor

/-- The same place in a document that goes on behind a line feed. -/
def extend (more : Bytes) (c : Cursor) : Cursor := ⟨c.position, c.rest ++ 0x0A :: more⟩

theorem extend_advance {more : Bytes} {c : Cursor} {n : Nat} (h : n ≤ c.rest.length) :
    (c.extend more).advance n = (c.advance n).extend more := by
  unfold extend advance
  dsimp only
  rw [Bytes.drop_append_of_le h]

end Cursor

namespace Reader

variable {more : Bytes}

/-- A reader whose results stay the same if the document goes on. -/
def Extends {α : Type} (more : Bytes) (r : Reader α) : Prop :=
  ∀ c a c', r c = .ok a c' → r (c.extend more) = .ok a (c'.extend more)

theorem extends_pure {α : Type} (a : α) : Extends more (pure a) := by
  intro c a' c' h
  cases h
  rfl

theorem extends_throw {α : Type} (e : Error) : Extends more (throw e : Reader α) := by
  intro c a c' h
  cases h

theorem Extends.bind {α β : Type} {r : Reader α} {f : α → Reader β} (hr : Extends more r)
    (hf : ∀ a, Extends more (f a)) : Extends more (r >>= f) := by
  intro c b c' h
  obtain ⟨a, c₁, hra, hfa⟩ := bind_eq_ok.mp h
  exact bind_eq_ok.mpr ⟨a, c₁.extend more, hr c a c₁ hra, hf a c₁ b c' hfa⟩

theorem token_extend {c c' : Cursor} {t : Token} (h : token c = .ok t c') (hend : t ≠ .eof) :
    token (c.extend more) = .ok t (c'.extend more) := by
  unfold token at h
  have hle := Token.scan_le c.rest
  generalize hscan : Token.scan c.rest = result at h hle
  obtain ⟨_ | t', n⟩ := result
  · cases h
  · cases h
    rw [← Cursor.extend_advance hle]
    exact token_of_scan (Token.scan_extend more hscan hend) c.position

/-- A reader that goes on behind a token that is not the end. -/
theorem extends_token_bind {α : Type} {f : Token → Reader α} (hf : ∀ t, Extends more (f t))
    (hend : ∀ c a c', f .eof c ≠ .ok a c') : Extends more (token >>= f) := by
  intro c a c' h
  obtain ⟨t, c₁, ht, hft⟩ := bind_eq_ok.mp h
  have hne : t ≠ .eof := by
    rintro rfl
    exact hend c₁ a c' hft
  exact bind_eq_ok.mpr ⟨t, c₁.extend more, token_extend ht hne, hf t c₁ a c' hft⟩

theorem extends_integer : Extends more integer := by
  refine extends_token_bind ?_ ?_
  · intro t
    cases t with
    | integer value => exact extends_pure value
    | _ => exact extends_throw _
  · intro c a c' h
    cases h

theorem extends_expect (word : Bytes) : Extends more (expect word) := by
  refine extends_token_bind ?_ ?_
  · intro t
    split
    · exact extends_pure ()
    · exact extends_throw _
  · intro c a c' h
    cases h

theorem extends_header : Extends more header := by
  intro c key c' h
  unfold header at h ⊢
  have hparts : Extends more (do
      let number ← integer
      let generation ← integer
      expect Reserved.obj.spelling
      return (number, generation) : Reader (Int × Int)) :=
    extends_integer.bind fun _ => extends_integer.bind fun _ =>
      (extends_expect _).bind fun _ => extends_pure _
  dsimp only at h ⊢
  split at h
  · cases h
  · rename_i number generation c₁ hread
    rw [hparts c _ c₁ hread]
    dsimp only
    split at h
    · cases h
      rfl
    · cases h

theorem rest_ne_nil_of_header {c c' : Cursor} {k : Key} (h : header c = .ok k c') :
    c.rest ≠ [] := by
  obtain ⟨position, rest⟩ := c
  rintro rfl
  cases h

/-! ## Tokens behind comments -/

theorem skipComments_extend {c : Cursor} (h : c.skipComments.rest ≠ []) :
    (c.extend more).skipComments = c.skipComments.extend more := by
  have hlt : Token.skipLength false 0 c.rest < 0 + c.rest.length := by
    have hdrop : c.rest.drop (Token.skipLength false 0 c.rest) ≠ [] := h
    rw [ne_eq, List.drop_eq_nil_iff] at hdrop
    omega
  unfold Cursor.skipComments
  change (c.extend more).advance (Token.skipLength false 0 (c.rest ++ 0x0A :: more)) = _
  rw [Token.skipLength_extend more hlt, Cursor.extend_advance (by omega)]

theorem rest_ne_nil_of_token {c c' : Cursor} {t : Token} (h : token c = .ok t c')
    (hend : t ≠ .eof) : c.rest ≠ [] := by
  intro hnil
  unfold token at h
  rw [hnil] at h
  cases h
  exact hend rfl

theorem significant_extend {c c' : Cursor} {t : Token} (h : significant c = .ok t c')
    (hend : t ≠ .eof) : significant (c.extend more) = .ok t (c'.extend more) := by
  unfold significant at h ⊢
  rw [skipComments_extend (rest_ne_nil_of_token h hend)]
  exact token_extend h hend

end Reader

end CrossReference
