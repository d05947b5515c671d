import CrossReference.Chain
import CrossReference.Proofs.Bytes.Search
import CrossReference.Proofs.Token.Spelled

set_option autoImplicit false

/-! # One search in several windows

The keyword `startxref` is looked for in a narrow window at the end of a document and then, if it is
not there, in a wider one. A window begins anywhere, so the keyword may stand across the start of
the narrow one and is not found in it. But where a window shows an occurrence, it shows all that
come behind, so the last one in the narrow window is the last one in the wide window. The search in
any number of windows is thus one search in the widest of them (`keyword?_eq_some`, by induction on
the windows: what has been searched holds no occurrence).

What is found is read token by token, and `find_eq_one_search` puts the two together. -/

namespace CrossReference

/-! ## Tokens behind the keyword -/

namespace Reader

/-- A reserved keyword is read exactly if it is the next token. -/
theorem expect_eq_ok_iff_scan {r : Reserved} {c c' : Cursor} :
    expect r.spelling c = .ok () c' ↔
      ∃ n, Token.scan c.rest = (.ok (.reserved r), n) ∧ c' = c.advance n := by
  constructor
  · intro h
    obtain ⟨white, rest, hrest, hwhite, hstop, rfl⟩ := expect_eq_ok.mp h
    refine ⟨white.length + r.spelling.length, ?_, ?_⟩
    · rw [hrest, Token.scan_white hwhite, Token.scan_reserved r hstop]
    · rw [Cursor.advance, hrest, List.drop_length_add_append, List.drop_left]
  · rintro ⟨n, hscan, rfl⟩
    exact expect_of_scan hscan c.position

/-- An integer is read exactly if it is the next token. -/
theorem integer_eq_ok_iff_scan {value : Int} {c c' : Cursor} :
    integer c = .ok value c' ↔
      ∃ n, Token.scan c.rest = (.ok (.integer value), n) ∧ c' = c.advance n := by
  constructor
  · intro h
    obtain ⟨t, c₁, htoken, h⟩ := bind_eq_ok.mp h
    cases t with
    | integer found =>
      cases h
      exact exists_scan_of_token htoken
    | _ => cases h
  · rintro ⟨n, hscan, rfl⟩
    exact integer_of_scan hscan c.position

end Reader

namespace StartLink

/-- The first two tokens of a text are the keyword `startxref` and an offset. -/
def Announces (text : Bytes) (offset : Nat) : Prop :=
  ∃ n m, Token.scan text = (.ok (.reserved .startXref), n) ∧
    Token.scan (text.drop n) = (.ok (.integer offset), m)

theorem value_eq_ok (position : Nat) {text : Bytes} {offset : Nat} :
    (∃ c, value ⟨position, text⟩ = .ok offset c) ↔ Announces text offset := by
  constructor
  · rintro ⟨c, h⟩
    obtain ⟨_, c₁, hexpect, hinteger⟩ := bind_eq_ok.mp h
    obtain ⟨n, hkeyword, rfl⟩ := Reader.expect_eq_ok_iff_scan.mp hexpect
    obtain ⟨m, hoffset, -⟩ := Reader.integer_eq_ok_iff_scan.mp hinteger
    exact ⟨n, m, hkeyword, hoffset⟩
  · rintro ⟨n, m, hkeyword, hoffset⟩
    exact ⟨_, bind_eq_ok.mpr ⟨(), _, Reader.expect_eq_ok_iff_scan.mpr ⟨n, hkeyword, rfl⟩,
      Reader.integer_eq_ok_iff_scan.mpr ⟨m, hoffset, rfl⟩⟩⟩

theorem offsetAt_eq_some {file : Bytes} {keyword offset : Nat} :
    (offsetAt file keyword).1 = some offset ↔ Announces (file.drop keyword) offset := by
  rw [← value_eq_ok keyword]
  unfold offsetAt
  cases value ⟨keyword, file.drop keyword⟩ with
  | error e c => simp
  | ok found c =>
    cases found with
    | ofNat n =>
      constructor
      · intro h
        cases h
        exact ⟨c, rfl⟩
      · rintro ⟨c', h⟩
        cases h
        rfl
    | negSucc n => simp

/-! ## Windows -/

theorem spelling_ne_nil : Reserved.startXref.spelling ≠ [] := by decide

/-- The search in windows one after the other finds the last occurrence, if it begins in the widest
    of them. -/
theorem keyword?_eq_some {file : Bytes} {searched : Nat} (hsearched : searched ≤ file.length)
    (hnone : ∀ i, ¬Reserved.startXref.spelling <+: file.drop (file.length - searched + i))
    {windows : List Nat} {keyword : Nat} :
    keyword? file file.length searched windows = some keyword ↔
      Bytes.LastAt Reserved.startXref.spelling file keyword ∧
        file.length - max searched (windows.foldr max 0) ≤ keyword := by
  induction windows generalizing searched with
  | nil =>
    refine iff_of_false (Option.some_ne_none keyword).symm fun ⟨hlast, hle⟩ => ?_
    rw [List.foldr_nil, Nat.max_zero] at hle
    have hfound := hnone (keyword - (file.length - searched))
    rw [Nat.add_sub_cancel' hle] at hfound
    exact hfound hlast.1
  | cons window rest ih =>
    rw [keyword?, List.foldr_cons]
    split
    · -- the window shows nothing new
      rw [ih hsearched hnone]
      exact and_congr_right fun _ => by omega
    · rename_i hwider
      cases hlast : Bytes.last? Reserved.startXref.spelling
          (file.drop (file.length - min window file.length)) with
      | some i =>
        have hfound := Bytes.lastAt_drop.mp ((Bytes.last?_eq_some spelling_ne_nil).mp hlast)
        dsimp only
        rw [Option.some.injEq]
        constructor
        · rintro rfl
          exact ⟨hfound, by omega⟩
        · exact fun ⟨hkeyword, _⟩ => hfound.unique hkeyword
      | none =>
        have hmissing := (Bytes.last?_eq_none spelling_ne_nil).mp hlast
        simp only [List.drop_drop] at hmissing
        dsimp only
        rw [ih (Nat.min_le_right window file.length) hmissing]
        exact and_congr_right fun _ => by omega

variable (options : Options) (file : Bytes)

/-- Where the last bytes of a document begin, as many as the wider window shows. -/
def tailStart : Nat :=
  file.length - min file.length (max options.startWindow options.extendedWindow)

theorem keyword?_eq_last :
    keyword? file file.length 0 [options.startWindow, options.extendedWindow] =
      (Bytes.last? Reserved.startXref.spelling (file.drop (tailStart options file))).map
        (tailStart options file + ·) := by
  have hnone : ∀ i, ¬Reserved.startXref.spelling <+: file.drop (file.length - 0 + i) := by
    intro i hoccurs
    rw [List.drop_eq_nil_of_le (by omega), List.prefix_nil] at hoccurs
    exact spelling_ne_nil hoccurs
  refine Option.ext fun keyword => ?_
  rw [keyword?_eq_some (Nat.zero_le _) hnone, Option.map_eq_some_iff]
  simp only [Bytes.last?_eq_some spelling_ne_nil, Bytes.lastAt_drop, List.foldr_cons,
    List.foldr_nil]
  constructor
  · rintro ⟨hlast, hle⟩
    have hstart : tailStart options file ≤ keyword := by
      unfold tailStart
      omega
    refine ⟨keyword - tailStart options file, ?_, Nat.add_sub_cancel' hstart⟩
    rwa [Nat.add_sub_cancel' hstart]
  · rintro ⟨i, hlast, rfl⟩
    refine ⟨hlast, ?_⟩
    unfold tailStart
    omega

/-- The search for the newest section is one search, for every document and all windows. It looks at
    the last occurrence of the keyword in the last bytes of the document, as many as the wider
    window shows or as there are, and gives an offset exactly if the tokens from there on begin with
    the keyword and this offset. How the two windows divide these bytes matters neither to the
    offset nor to the complaints. -/
theorem find_eq_one_search :
    (∀ offset, (find options file).1 = some offset ↔
      ∃ i, Bytes.LastAt Reserved.startXref.spelling (file.drop (tailStart options file)) i ∧
        Announces ((file.drop (tailStart options file)).drop i) offset) ∧
    find options file =
      find { options with
        startWindow := max options.startWindow options.extendedWindow, extendedWindow := 0 }
        file := by
  constructor
  · intro offset
    simp only [← Bytes.last?_eq_some spelling_ne_nil, List.drop_drop]
    unfold find
    rw [keyword?_eq_last]
    cases hlast : Bytes.last? Reserved.startXref.spelling
        (file.drop (tailStart options file)) with
    | none => simp
    | some i => simp [offsetAt_eq_some]
  · unfold find
    rw [keyword?_eq_last, keyword?_eq_last]
    unfold tailStart
    rw [Nat.max_zero]

/-- A keyword that stands across the start of the narrow window. -/
example : (find { Options.strict with startWindow := 4, extendedWindow := 11 }
    (ascii "startxref 5")).1 = some 5 := by decide

end StartLink

end CrossReference
