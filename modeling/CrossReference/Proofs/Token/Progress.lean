import CrossReference.Proofs.Loop
import CrossReference.Proofs.Token.Spelled

set_option autoImplicit false

/-! # The reader of tokens goes on

Where only white space is left, the reader of tokens comes to the end. Everywhere else a token or a
fault begins with some byte, and this byte is taken: the readers of names, strings and numbers only
ever add to what they took (`le_nameRest` and its like), and where they fail they have come further
than where they began. `getsOn_scanFrom` puts the kinds of tokens together, and `token_cases` says
what the reader does at any place.

So a loop that reads tokens until the end, whatever it makes of them and of the errors between them,
has no more rounds than bytes and one (`token_progress`). -/

namespace CrossReference

namespace Token

/-! ## No reader gives back what was taken -/

theorem le_nameRest (acc : Bytes) (n : Nat) (text : Bytes) : n ≤ (nameRest acc n text).2 := by
  fun_induction nameRest acc n text <;> grind

theorem le_stringRest (s : StringState) (n : Nat) (text : Bytes) :
    n ≤ (stringRest s n text).2 := by
  fun_induction stringRest s n text <;> grind

theorem le_hexStringRest (acc : List UInt8) (n : Nat) (text : Bytes) :
    n ≤ (hexStringRest acc n text).2 := by
  fun_induction hexStringRest acc n text <;> grind

/-- A number that begins with a digit or a point has that byte in its text. -/
theorem Numeral.frontUnsigned_ne_nil {b : UInt8} (hb : Byte.isDigit b = true ∨ b = 0x2E)
    (sign rest : Bytes) : (frontUnsigned sign (b :: rest)).text ≠ [] := by
  intro hnil
  unfold frontUnsigned at hnil
  rcases hb with hdigit | rfl
  · rw [List.takeWhile_cons_of_pos hdigit] at hnil
    dsimp only at hnil
    split at hnil <;> simp [text] at hnil
  · rw [List.takeWhile_cons_of_neg (by decide)] at hnil
    simp [text] at hnil

/-- A number takes the byte that it begins with, even if it lacks digits. -/
theorem Numeral.front_ne_nil {b : UInt8}
    (hb : (Byte.isDigit b || b = 0x2B || b = 0x2D || b = 0x2E) = true) (rest : Bytes) :
    (front (b :: rest)).text ≠ [] := by
  have hsigned : ∀ c unsigned, (frontUnsigned [c] unsigned).text ≠ [] := by
    intro c unsigned
    unfold frontUnsigned
    dsimp only
    split <;> simp [text]
  rw [front_eq]
  simp only [Bool.or_eq_true, decide_eq_true_eq] at hb
  rcases hb with ((hdigit | rfl) | rfl) | rfl
  · have hdigits : ∀ c ∈ [b], Byte.isDigit c = true := by
      rintro c (_ | ⟨_, ⟨⟩⟩)
      exact hdigit
    have hsign : signOf (b :: rest) = [] :=
      signOf_append (Or.inl rfl) hdigits (List.cons_ne_nil b []) rest
    rw [hsign]
    exact frontUnsigned_ne_nil (Or.inl hdigit) [] rest
  · exact hsigned _ _
  · exact hsigned _ _
  · exact frontUnsigned_ne_nil (Or.inr rfl) _ _

/-! ## Each token takes its first byte -/

/-- Whether a reader of tokens took a byte, and did not come to the end. -/
def GetsOn (taken : Taken Token) : Prop := 0 < taken.2 ∧ taken.1 ≠ .ok .eof

theorem getsOn_map {α : Type} {f : α → Token} (hf : ∀ a, f a ≠ .eof) {taken : Taken α}
    (htaken : 0 < taken.2) : GetsOn (taken.1.map f, taken.2) := by
  obtain ⟨_ | a, n⟩ := taken
  · exact ⟨htaken, fun h => nomatch h⟩
  · exact ⟨htaken, fun h => hf a (Except.ok.inj h)⟩

theorem ofWord_ne_eof (word : Bytes) : ofWord word ≠ .eof := by
  intro h
  rcases ofWord_cases h with h | h | ⟨_, h⟩ <;> cases h

theorem Numeral.token_ne_eof (x : Numeral) : x.token ≠ .ok .eof := by
  intro h
  rcases token_cases h with ⟨_, h⟩ | ⟨_, h⟩ <;> cases h

/-- Whatever a token begins with, its reader takes that byte. -/
theorem getsOn_scanFrom (b : UInt8) (rest : Bytes) : GetsOn (scanFrom b rest) := by
  unfold scanFrom
  dsimp only
  split
  · exact ⟨by dsimp only; omega, fun h => nomatch h⟩
  split
  · exact getsOn_map (fun _ => Token.noConfusion) (le_nameRest [] 1 rest)
  split
  · exact getsOn_map (fun _ => Token.noConfusion) (le_stringRest {} 1 rest)
  split
  · split
    · exact ⟨Nat.zero_lt_two, fun h => nomatch h⟩
    · exact getsOn_map (fun _ => Token.noConfusion) (le_hexStringRest [] 1 rest)
  split
  · split
    · exact ⟨Nat.zero_lt_two, fun h => nomatch h⟩
    · exact ⟨Nat.zero_lt_one, fun h => nomatch h⟩
  split
  · exact ⟨Nat.zero_lt_one, fun h => nomatch h⟩
  split
  · exact ⟨Nat.zero_lt_one, fun h => nomatch h⟩
  split
  · rename_i hnumber
    exact ⟨List.length_pos_iff.mpr (Numeral.front_ne_nil hnumber rest), Numeral.token_ne_eof _⟩
  split
  · exact ⟨Nat.zero_lt_one, fun h => nomatch h⟩
  · exact ⟨Nat.zero_lt_succ _, fun h => ofWord_ne_eof _ (Except.ok.inj h)⟩

/-- The end is read exactly where only white space is left. -/
theorem scan_cases (text : Bytes) :
    (∀ b ∈ text, Byte.isWhite b = true) ∧ scan text = (.ok .eof, text.length) ∨
      (∃ b ∈ text, Byte.isWhite b = false) ∧ GetsOn (scan text) := by
  obtain ⟨white, tail, rfl, hwhite, hstop⟩ := Bytes.exists_run Byte.isWhite text
  rw [scan_white hwhite]
  cases tail with
  | nil =>
    rw [List.append_nil]
    exact Or.inl ⟨hwhite, rfl⟩
  | cons b rest =>
    have hb := Bytes.stops_cons.mp hstop
    obtain ⟨htaken, hend⟩ := getsOn_scanFrom b rest
    rw [scan_of_not_white hb]
    exact Or.inr ⟨⟨b, List.mem_append_right white List.mem_cons_self, hb⟩,
      Nat.add_pos_right _ htaken, hend⟩

end Token

/-! ## From place to place -/

namespace Cursor

/-- Whether a place is found by going on from another one, over so many bytes at least, and no
    further than to the end. -/
def Reaches (least : Nat) (c c' : Cursor) : Prop :=
  ∃ n, least ≤ n ∧ n ≤ c.rest.length ∧ c' = c.advance n

variable {least more : Nat} {c c₁ c' : Cursor} {file : Bytes} {p : Nat}

theorem reaches_advance {n : Nat} (h : n ≤ c.rest.length) : c.Reaches n (c.advance n) :=
  ⟨n, Nat.le_refl n, h, rfl⟩

theorem reaches_refl (c : Cursor) : c.Reaches 0 c := reaches_advance (Nat.zero_le _)

theorem Reaches.mono (h : c.Reaches more c') (hle : least ≤ more) : c.Reaches least c' := by
  obtain ⟨n, hn, hrest, rfl⟩ := h
  exact ⟨n, Nat.le_trans hle hn, hrest, rfl⟩

theorem Reaches.trans (h : c.Reaches least c₁) (h' : c₁.Reaches more c') :
    c.Reaches (least + more) c' := by
  obtain ⟨n, hn, hrest, rfl⟩ := h
  obtain ⟨m, hm, hrest', rfl⟩ := h'
  have hleft : (c.advance n).rest.length = c.rest.length - n := List.length_drop
  refine ⟨n + m, Nat.add_le_add hn hm, by omega, ?_⟩
  unfold advance
  dsimp only
  rw [List.drop_drop, Nat.add_assoc]

theorem Reaches.length_le (h : c.Reaches least c') : c'.rest.length + least ≤ c.rest.length := by
  obtain ⟨n, hn, hrest, rfl⟩ := h
  have hleft : (c.advance n).rest.length = c.rest.length - n := List.length_drop
  omega

/-- What is reached from an offset of a document is a place of it that lies further on. -/
theorem Reaches.exists_offset (hp : p ≤ file.length)
    (h : Reaches least ⟨p, file.drop p⟩ c') :
    ∃ q, p + least ≤ q ∧ q ≤ file.length ∧ c' = ⟨q, file.drop q⟩ := by
  obtain ⟨n, hn, hrest, rfl⟩ := h
  rw [List.length_drop] at hrest
  refine ⟨p + n, Nat.add_le_add_left hn p, by omega, ?_⟩
  unfold advance
  rw [List.drop_drop]

end Cursor

namespace Reader

open Cursor (reaches_advance)

/-- At the end of the text the reader of tokens comes to the end; everywhere else it reads another
    token or fails, and stops further on. -/
theorem token_cases (c : Cursor) :
    (∀ b ∈ c.rest, Byte.isWhite b = true) ∧ token c = .ok .eof (c.advance c.rest.length) ∨
      (∃ b ∈ c.rest, Byte.isWhite b = false) ∧ ∃ c', c.Reaches 1 c' ∧
        ((∃ t, t ≠ .eof ∧ token c = .ok t c') ∨ ∃ e, token c = .error e c') := by
  have hle := Token.scan_le c.rest
  unfold token
  rcases Token.scan_cases c.rest with ⟨hwhite, hscan⟩ | ⟨hother, htaken, hend⟩
  · rw [hscan]
    exact Or.inl ⟨hwhite, rfl⟩
  · refine Or.inr ⟨hother, c.advance (Token.scan c.rest).2, (reaches_advance hle).mono htaken, ?_⟩
    generalize Token.scan c.rest = result at hend
    obtain ⟨fault | t, n⟩ := result
    · exact Or.inr ⟨_, rfl⟩
    · exact Or.inl ⟨t, fun ht => hend (congrArg _ ht), rfl⟩

/-- A round of a loop that reads tokens until the end, and makes what it likes of each token and of
    each error. -/
def tokenRound {σ : Type} (use : σ → Except Error Token → σ) (s : σ × Cursor) :
    Outcome (σ × Cursor) σ :=
  match token s.2 with
  | .ok .eof _ => .ended s.1
  | .ok t c => .again (use s.1 (.ok t), c)
  | .error e c => .again (use s.1 (.error e), c)

theorem tokenRound_consumes {σ : Type} (use : σ → Except Error Token → σ) :
    Loop.Consumes (tokenRound use) fun s => s.2.rest.length := by
  intro s s' h
  rcases token_cases s.2 with ⟨_, hread⟩ | ⟨_, c', hreaches, ⟨t, hend, hread⟩ | ⟨e, hread⟩⟩
  · rw [tokenRound, hread] at h
    cases h
  · have hs' : s'.2 = c' := by
      rw [tokenRound, hread] at h
      cases t with
      | eof => exact absurd rfl hend
      | _ => exact congrArg Prod.snd (Outcome.again.inj h).symm
    show s'.2.rest.length < s.2.rest.length
    rw [hs']
    exact hreaches.length_le
  · rw [tokenRound, hread] at h
    obtain rfl := Outcome.again.inj h
    exact hreaches.length_le

/-- From any offset of a document the reader of tokens comes to the end, if only white space is
    left, or else reads another token or fails, and stops further on but not beyond the end. So a
    loop that reads tokens until the end, whatever it makes of them and of the errors, ends at the
    latest with as many calls as there are bytes, and one. -/
theorem token_progress {file : Bytes} {p : Nat} (hp : p ≤ file.length) :
    ((∀ b ∈ file.drop p, Byte.isWhite b = true) ∧
        token ⟨p, file.drop p⟩ = .ok .eof ⟨file.length, []⟩ ∨
      (∃ b ∈ file.drop p, Byte.isWhite b = false) ∧ ∃ q, p < q ∧ q ≤ file.length ∧
        ((∃ t, t ≠ .eof ∧ token ⟨p, file.drop p⟩ = .ok t ⟨q, file.drop q⟩) ∨
          ∃ e, token ⟨p, file.drop p⟩ = .error e ⟨q, file.drop q⟩)) ∧
    ∀ {σ : Type} (use : σ → Except Error Token → σ) (s : σ),
      ∃ calls ≤ file.length - p + 1, ∃ s',
        Loop.EndsIn (tokenRound use) calls (s, ⟨p, file.drop p⟩) s' := by
  constructor
  · rcases token_cases ⟨p, file.drop p⟩ with ⟨hwhite, hread⟩ | ⟨hother, c', hreaches, hread⟩
    · refine Or.inl ⟨hwhite, ?_⟩
      rw [hread]
      unfold Cursor.advance
      dsimp only
      rw [List.drop_length, List.length_drop, Nat.add_sub_cancel' hp]
    · obtain ⟨q, hpq, hq, rfl⟩ := hreaches.exists_offset hp
      exact Or.inr ⟨hother, q, hpq, hq, hread⟩
  · intro σ use s
    have hends := Loop.exists_endsIn (tokenRound_consumes use) (s, ⟨p, file.drop p⟩)
    rwa [List.length_drop] at hends

/-- Brackets that close nothing, a sign without a number, and white space behind them. -/
def strayText : Bytes := ascii ") > +x \n"

/-- A loop that counts tokens and errors goes on behind each of the errors, and ends. -/
theorem strayText_progress :
    2 ≤ strayText.length ∧
      (∃ q, 2 < q ∧ q ≤ strayText.length ∧
        ((∃ t, t ≠ .eof ∧ token ⟨2, strayText.drop 2⟩ = .ok t ⟨q, strayText.drop q⟩) ∨
          ∃ e, token ⟨2, strayText.drop 2⟩ = .error e ⟨q, strayText.drop q⟩)) ∧
      ∃ calls ≤ 7, ∃ n,
        Loop.EndsIn (tokenRound fun n _ => n + 1) calls (0, ⟨2, strayText.drop 2⟩) n := by
  have hp : 2 ≤ strayText.length := by decide
  obtain ⟨hread, hends⟩ := token_progress hp
  refine ⟨hp, ?_, hends _ 0⟩
  rcases hread with ⟨hwhite, -⟩ | ⟨-, hread⟩
  · exact absurd (hwhite 0x3E (by decide)) (by decide)
  · exact hread

end Reader

end CrossReference
