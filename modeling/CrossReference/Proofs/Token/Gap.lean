import CrossReference.Proofs.Token.Words

set_option autoImplicit false

/-! # What stands between tokens

Tokens are separated by white space and by comments (`Gap`). A reader that asks for a token that is
no comment passes over both (`significant_gap`). A reader that asks for a plain token passes over
white space only: a comment in the gap is what it gets (`token_gap`). -/

namespace CrossReference

open Bytes (Stops)

/-- White space and comments. A comment begins with a percent sign and goes up to the end of its
    line. -/
inductive Gap : Bytes → Prop
  | nil : Gap []
  | white {b : UInt8} {rest : Bytes} (isWhite : Byte.isWhite b = true) (gap : Gap rest) :
      Gap (b :: rest)
  | comment {text : Bytes} {b : UInt8} {rest : Bytes}
      (inLine : ∀ c ∈ text, Byte.isLineEnd c = false) (isLineEnd : Byte.isLineEnd b = true)
      (gap : Gap rest) : Gap (0x25 :: (text ++ b :: rest))

namespace Gap

variable {gap rest : Bytes}

theorem of_white {white : Bytes} (hw : ∀ b ∈ white, Byte.isWhite b = true) : Gap white := by
  induction white with
  | nil => exact .nil
  | cons b white ih =>
    obtain ⟨hb, hrest⟩ := List.forall_mem_cons.mp hw
    exact .white hb (ih hrest)

theorem space : Gap [0x20] := of_white Byte.space_white

/-- A gap without comments is white space. -/
theorem isWhite_of_not_mem (h : Gap gap) (hplain : 0x25 ∉ gap) :
    ∀ b ∈ gap, Byte.isWhite b = true := by
  induction h with
  | nil => exact Byte.nil_white
  | white hb _ ih =>
    rw [List.mem_cons, not_or] at hplain
    exact List.forall_mem_cons.mpr ⟨hb, ih hplain.2⟩
  | comment => exact absurd List.mem_cons_self hplain

theorem append {gap' : Bytes} (h : Gap gap) (h' : Gap gap') : Gap (gap ++ gap') := by
  induction h with
  | nil => exact h'
  | white hb _ ih => exact .white hb ih
  | comment inLine isLineEnd _ ih =>
    rw [List.cons_append, List.append_assoc, List.cons_append]
    exact .comment inLine isLineEnd ih

/-- A gap ends the token in front of it. -/
theorem stops (h : Gap gap) (hne : gap ≠ []) (rest : Bytes) :
    Stops Byte.isRegular (gap ++ rest) := by
  cases h with
  | nil => exact absurd rfl hne
  | white hb => exact Bytes.stops_cons.mpr (by simp [Byte.isRegular, hb])
  | comment => exact Bytes.stops_cons.mpr (by decide)

theorem stops_append (h : Gap gap) (hrest : Stops Byte.isRegular rest) :
    Stops Byte.isRegular (gap ++ rest) := by
  by_cases hne : gap = []
  · rw [hne]
    exact hrest
  · exact h.stops hne rest

end Gap

namespace Token

/-- Counting may begin at any number. -/
theorem skipLength_add (inComment : Bool) (k n : Nat) (text : Bytes) :
    skipLength inComment (k + n) text = k + skipLength inComment n text := by
  fun_induction skipLength inComment n text with
  | case1 => rfl
  | case2 n b rest ih => rw [skipLength, if_pos rfl, Nat.add_assoc, ih]
  | case3 n b rest inComment hin hb ih =>
    rw [skipLength, if_neg hin, if_pos hb, Nat.add_assoc, ih]
  | case4 n rest inComment hin hb ih =>
    rw [skipLength, if_neg hin, if_neg hb, if_pos rfl, Nat.add_assoc, ih]
  | case5 n b rest inComment hin hb hcomment =>
    rw [skipLength, if_neg hin, if_neg hb, if_neg hcomment]

theorem skipLength_line {text : Bytes} (inLine : ∀ c ∈ text, Byte.isLineEnd c = false) (n : Nat)
    (rest : Bytes) : skipLength true n (text ++ rest) = skipLength true (n + text.length) rest := by
  induction text generalizing n with
  | nil => rfl
  | cons c text ih =>
    obtain ⟨hc, htext⟩ := List.forall_mem_cons.mp inLine
    rw [List.cons_append, skipLength, if_pos rfl, hc, Bool.not_false, ih htext, List.length_cons]
    congr 1
    omega

/-- A gap is passed over as a whole. -/
theorem skipLength_gap {gap : Bytes} (h : Gap gap) (n : Nat) (text : Bytes) :
    skipLength false n (gap ++ text) = skipLength false (n + gap.length) text := by
  induction h generalizing n with
  | nil => rfl
  | white hb _ ih =>
    rw [List.cons_append, skipLength, if_neg Bool.false_ne_true, if_pos hb, ih, List.length_cons]
    congr 1
    omega
  | @comment line b rest inLine isLineEnd _ ih =>
    rw [List.cons_append, List.append_assoc, skipLength, if_neg Bool.false_ne_true,
      if_neg (by decide), if_pos rfl, skipLength_line inLine, List.cons_append, skipLength,
      if_pos rfl, isLineEnd, Bool.not_true, ih]
    simp only [List.length_cons, List.length_append]
    congr 1
    omega

end Token

namespace Reader

variable {gap : Bytes}

/-- A token that is no comment is read behind a gap as without it. -/
theorem significant_gap (h : Gap gap) (position : Nat) (text : Bytes) :
    significant ⟨position, gap ++ text⟩ = significant ⟨position + gap.length, text⟩ := by
  have hskip : (⟨position, gap ++ text⟩ : Cursor).skipComments =
      (⟨position + gap.length, text⟩ : Cursor).skipComments := by
    unfold Cursor.skipComments Cursor.advance
    dsimp only
    rw [Token.skipLength_gap h, Nat.add_comm 0, Token.skipLength_add, List.drop_length_add_append,
      Nat.add_assoc]
  unfold significant
  rw [hskip]

/-- A plain token behind a gap with comments is a comment. -/
theorem token_gap (h : Gap gap) (hcomment : 0x25 ∈ gap) (position : Nat) (text : Bytes) :
    ∃ line c, token ⟨position, gap ++ text⟩ = .ok (.comment line) c := by
  induction h generalizing position with
  | nil => exact absurd hcomment List.not_mem_nil
  | @white b rest hb _ ih =>
    have hne : (0x25 : UInt8) ≠ b := by
      rintro rfl
      exact absurd hb (by decide)
    have hwhite : ∀ c ∈ [b], Byte.isWhite c = true := List.forall_mem_singleton.mpr hb
    have hread := token_white hwhite position (rest ++ text)
    obtain ⟨line, c, hline⟩ := ih ((List.mem_cons.mp hcomment).resolve_left hne) (position + 1)
    exact ⟨line, c, hread.trans hline⟩
  | comment =>
    rw [List.cons_append]
    exact ⟨_, _, token_of_scan (Token.scan_of_not_white (by decide) _) position⟩

end Reader

end CrossReference
