import CrossReference.Proofs.Object.RoundTrip

set_option autoImplicit false

/-! # Comments between the tokens of objects and definitions

Comments may stand wherever white space may, with two exceptions: the reader of headers and the one
that looks for the rest of a reference ask for plain tokens, so they come upon a comment instead of
passing over it. The value that is read is the same with comments as without exactly if none stands
in such a place, or if the object is too deep for the reader anyway (`same_value_iff`). -/

namespace CrossReference

open Bytes (Stops)
open Decimal (digits)

namespace Reader

/-- What a reader makes of a text, if it does not fail on it. -/
def value? {α : Type} (r : Reader α) (c : Cursor) : Option α := (r.run? c).map Prod.fst

section Values

variable {α : Type} {r : Reader α} {c c' : Cursor}

theorem value?_of_ok {a : α} (h : r c = .ok a c') : r.value? c = some a := by
  rw [value?, run?, h]
  rfl

theorem value?_of_error {e : Error} (h : r c = .error e c') : r.value? c = none := by
  rw [value?, run?, h]
  rfl

end Values

variable {gap rest : Bytes}

theorem integer_gap_comment (h : Gap gap) (hcomment : 0x25 ∈ gap) (position : Nat) (text : Bytes) :
    ∃ e c, integer ⟨position, gap ++ text⟩ = .error e c := by
  obtain ⟨line, c, hread⟩ := token_gap h hcomment position text
  exact ⟨_, _, bind_of_ok hread⟩

theorem expect_gap_comment (h : Gap gap) (hcomment : 0x25 ∈ gap) (word : Bytes) (position : Nat)
    (text : Bytes) : ∃ e c, expect word ⟨position, gap ++ text⟩ = .error e c := by
  obtain ⟨line, c, hread⟩ := token_gap h hcomment position text
  exact ⟨_, _, bind_of_ok hread⟩

end Reader

namespace Object

open Reader

variable {upper split : Bool} {tolerance : Tolerance} {x : Object} {head body rest : Bytes}

/-! ## Objects -/

/-- What the reader makes of an object with so much nesting, if its text may split a reference: an
    object that is too deep is not read, and neither is one with a split reference inside, but a
    reference that is split itself is read as its number. -/
def taken (nesting : Nat) (split : Bool) (x : Object) : Option Object :=
  if nesting < x.depth then none
  else if split then
    match x with
    | reference key => some (integer key.number)
    | _ => none
  else some x

theorem taken_eq_none {nesting : Nat}
    (h : nesting < x.depth ∨ split = true ∧ ∀ key, x ≠ .reference key) :
    taken nesting split x = none := by
  unfold taken
  rcases h with hdeep | ⟨rfl, hreference⟩
  · exact if_pos hdeep
  · cases x with
    | reference key => exact absurd rfl (hreference key)
    | _ => exact ite_self none

/-- Splitting a reference changes what is read, unless nothing is read at all. -/
theorem taken_eq_iff {nesting : Nat} :
    taken nesting split x = taken nesting false x ↔ split = false ∨ nesting < x.depth := by
  by_cases hdeep : nesting < x.depth
  · simp [taken, hdeep]
  · cases split with
    | false => simp
    | true => cases x <;> simp [taken, hdeep]

/-- The value of an object as it is spelled. -/
theorem Spelled.value?_read (h : Spelled upper x head body split) (hx : Printable x)
    (hends : Ends rest) (tolerance : Tolerance) (position : Nat) :
    (read tolerance).value? ⟨position, head ++ (body ++ rest)⟩ =
      taken tolerance.maxNesting split x := by
  have hlead := h.read_eq hx tolerance hends.stops position
  by_cases hbad : tolerance.maxNesting < x.depth ∨ split = true ∧ ∀ key, x ≠ .reference key
  · obtain ⟨e, c, hread, _⟩ := h.rejects hx hbad (position + head.length) rest hends
    rw [value?_of_error (hlead.trans hread), taken_eq_none hbad]
  · obtain ⟨hdepth, hsplit⟩ := not_or.mp hbad
    unfold taken
    rw [if_neg hdepth]
    cases split with
    | false =>
      have hread : ofToken tolerance tolerance.maxNesting x.lead _ = _ :=
        h.accepts hx rfl (Nat.le_of_not_lt hdepth) (position + head.length) rest hends
      rw [value?_of_ok (hlead.trans hread)]
      rfl
    | true =>
      obtain ⟨key, rfl⟩ : ∃ key, x = .reference key := by simpa using hsplit
      obtain ⟨gap, gap', isGap, isGap', _, ne_nil', rfl, rfl, hcomment⟩ := h.reference_eq
      have hnone := reference?_split hx.reference_le.2 isGap isGap' ne_nil'
        (of_decide_eq_true hcomment.symm) key.number (ascii "R" ++ rest)
        (position + (digits key.number).length)
      simp only [List.append_assoc] at hlead ⊢
      rw [lead, (plain_ofToken _ _).integer, integerOrReference_of_none hnone] at hlead
      rw [value?_of_ok hlead]
      rfl

/-- The value of an object behind a gap. -/
theorem value?_read_gap {gap : Bytes} (h : Gap gap) (position : Nat) (text : Bytes) :
    (read tolerance).value? ⟨position, gap ++ text⟩ =
      (read tolerance).value? ⟨position + gap.length, text⟩ := by
  have hread : read tolerance ⟨position, gap ++ text⟩ =
      read tolerance ⟨position + gap.length, text⟩ :=
    bind_of_eq (significant_gap h position text)
  rw [value?, run?, hread]
  rfl

/-! ## Definitions -/

/-- What separates two tokens: a gap that is not empty. -/
structure Separator where
  text : Bytes
  isGap : Gap text
  ne_nil : text ≠ []

/-- What separates the parts of a definition: behind the number, behind the generation, behind the
    keyword `obj`, and behind the object. -/
structure Separators where
  number : Separator
  generation : Separator
  opening : Separator
  object : Separator

namespace Separators

variable {key : Key}

/-- The bytes between the tokens of the header. -/
def inHeader (s : Separators) : Bytes := s.number.text ++ s.generation.text

/-- The bytes of all separators. -/
def all (s : Separators) : Bytes := s.inHeader ++ (s.opening.text ++ s.object.text)

/-- A header with what follows it. -/
def headerText (s : Separators) (key : Key) (rest : Bytes) : Bytes :=
  digits key.number ++ (s.number.text ++ (digits key.generation ++
    (s.generation.text ++ (Reserved.obj.spelling ++ rest))))

/-- A definition with what follows it. -/
def definitionText (s : Separators) (key : Key) (object rest : Bytes) : Bytes :=
  s.headerText key
    (s.opening.text ++ (object ++ (s.object.text ++ (Reserved.endObj.spelling ++ rest))))

/-- A header without comments is read. -/
theorem header_plain (s : Separators) (hplain : 0x25 ∉ s.inHeader)
    (number_le : key.number ≤ Decimal.maxSigned64)
    (generation_le : key.generation ≤ Decimal.maxWord32)
    (hstop : Stops Byte.isRegular rest) (position : Nat) :
    ∃ position', header ⟨position, s.headerText key rest⟩ = .ok key ⟨position', rest⟩ := by
  rw [inHeader, List.mem_append, not_or] at hplain
  have hgeneration : key.generation ≤ Decimal.maxSigned64 := Nat.le_trans generation_le (by decide)
  have hfirst := integer_natural Byte.nil_white number_le
    (s.number.isGap.stops s.number.ne_nil (digits key.generation ++
      (s.generation.text ++ (Reserved.obj.spelling ++ rest)))) position
  have hsecond := integer_natural (s.number.isGap.isWhite_of_not_mem hplain.1) hgeneration
    (s.generation.isGap.stops s.generation.ne_nil (Reserved.obj.spelling ++ rest))
  have hobj := expect_spelling .obj (s.generation.isGap.isWhite_of_not_mem hplain.2) hstop
  rw [List.nil_append] at hfirst
  exact ⟨_, header_of_parts generation_le hfirst (hsecond _) (hobj _)⟩

/-- A header with a comment is not read. -/
theorem header_comment (s : Separators) (hcomment : 0x25 ∈ s.inHeader)
    (number_le : key.number ≤ Decimal.maxSigned64)
    (generation_le : key.generation ≤ Decimal.maxWord32)
    (rest : Bytes) (position : Nat) :
    ∃ e c, header ⟨position, s.headerText key rest⟩ = .error e c := by
  have hgeneration : key.generation ≤ Decimal.maxSigned64 := Nat.le_trans generation_le (by decide)
  have hfirst := integer_natural Byte.nil_white number_le
    (s.number.isGap.stops s.number.ne_nil (digits key.generation ++
      (s.generation.text ++ (Reserved.obj.spelling ++ rest)))) position
  rw [List.nil_append] at hfirst
  unfold header headerText
  dsimp only
  rw [bind_of_ok hfirst]
  by_cases hnumber : 0x25 ∈ s.number.text
  · obtain ⟨e, c, hread⟩ := integer_gap_comment s.number.isGap hnumber
      (position + (([] : Bytes).length + (digits key.number).length)) _
    rw [bind_of_error hread]
    exact ⟨e, c, rfl⟩
  · have hsecond := integer_natural (s.number.isGap.isWhite_of_not_mem hnumber) hgeneration
      (s.generation.isGap.stops s.generation.ne_nil (Reserved.obj.spelling ++ rest))
    obtain ⟨e, c, hread⟩ := expect_gap_comment s.generation.isGap
      ((List.mem_append.mp hcomment).resolve_left hnumber) Reserved.obj.spelling _ _
    rw [bind_of_ok (hsecond _), bind_of_error hread]
    exact ⟨e, c, rfl⟩

end Separators

/-- The value of a definition is that of its object, behind a header that is read. -/
theorem value?_readDefinition {c c' : Cursor} {key : Key} (h : header c = .ok key c') :
    (readDefinition tolerance).value? c = ((read tolerance).value? c').map (key, ·) := by
  cases hread : read tolerance c' with
  | ok x c₁ =>
    obtain ⟨c₂, hdefinition⟩ := exists_readDefinition_iff.mpr ⟨c', c₁, h, hread⟩
    rw [value?_of_ok hdefinition, value?_of_ok hread]
    rfl
  | error e c₁ =>
    have hdefinition : readDefinition tolerance c = .error e c₁ :=
      (bind_of_ok h).trans (bind_of_error hread)
    rw [value?_of_error hdefinition, value?_of_error hread]
    rfl

/-- The value of a definition with separators. -/
theorem Spelled.value?_readDefinition (h : Spelled upper x head body split) (hx : Printable x)
    {key : Key} (number_le : key.number ≤ Decimal.maxSigned64)
    (generation_le : key.generation ≤ Decimal.maxWord32) (s : Separators)
    (hstop : Stops Byte.isRegular rest) (tolerance : Tolerance) (position : Nat) :
    (readDefinition tolerance).value? ⟨position, s.definitionText key (head ++ body) rest⟩ =
      if 0x25 ∈ s.inHeader then none
      else (taken tolerance.maxNesting split x).map (key, ·) := by
  unfold Separators.definitionText
  by_cases hcomment : 0x25 ∈ s.inHeader
  · obtain ⟨e, c, hheader⟩ := s.header_comment hcomment number_le generation_le _ position
    have hdefinition : readDefinition tolerance _ = .error e c := bind_of_error hheader
    rw [if_pos hcomment, value?_of_error hdefinition]
  · obtain ⟨position', hheader⟩ := s.header_plain hcomment number_le generation_le
      (s.opening.isGap.stops s.opening.ne_nil _) position
    have hends := ends_gap s.object.isGap s.object.ne_nil (unrelated_endObj hstop)
    rw [if_neg hcomment, Object.value?_readDefinition hheader, value?_read_gap s.opening.isGap,
      List.append_assoc, h.value?_read hx hends]

/-! ## With and without comments -/

/-- The gaps between the tokens of an object, or of a definition, make no difference for its value
    if and only if there is no comment inside a reference or inside the header, or the object is too
    deep to be read. -/
theorem same_value_iff (style : PrintStyle) (tolerance : Tolerance) (hx : Printable x)
    (h : Spelled style.upperHex x head body split) (position : Nat) :
    ((read tolerance).value? ⟨position, head ++ body⟩ =
        (read tolerance).value? ⟨position, x.print style⟩ ↔
      split = false ∨ tolerance.maxNesting < x.depth) ∧
    ∀ key : Key, key.number ≤ Decimal.maxSigned64 → key.generation ≤ Decimal.maxWord32 →
      ∀ s plain : Separators, 0x25 ∉ plain.all → ∀ rest, Stops Byte.isRegular rest →
      ((readDefinition tolerance).value? ⟨position, s.definitionText key (head ++ body) rest⟩ =
          (readDefinition tolerance).value?
            ⟨position, plain.definitionText key (x.print style) rest⟩ ↔
        (0x25 ∉ s.inHeader ∧ split = false) ∨ tolerance.maxNesting < x.depth) := by
  have hprint := spelled_print style hx
  constructor
  · have hgaps := h.value?_read hx ends_nil tolerance position
    have hplain := hprint.value?_read hx ends_nil tolerance position
    rw [List.append_nil] at hgaps hplain
    rw [print_eq, hgaps, hplain]
    exact taken_eq_iff
  · intro key number_le generation_le s plain hplain rest hstop
    have hheader : 0x25 ∉ plain.inHeader := fun hmem => hplain (List.mem_append_left _ hmem)
    rw [h.value?_readDefinition hx number_le generation_le s hstop, print_eq,
      hprint.value?_readDefinition hx number_le generation_le plain hstop, if_neg hheader]
    by_cases hcomment : 0x25 ∈ s.inHeader
    · rw [if_pos hcomment]
      by_cases hdeep : tolerance.maxNesting < x.depth
      · simp [taken, hdeep]
      · simp [taken, hdeep, hcomment]
    · have hinjective : Function.Injective fun y : Object => (key, y) := fun y z hyz => by
        cases hyz
        rfl
      rw [if_neg hcomment, (Option.map_injective hinjective).eq_iff, taken_eq_iff]
      simp [hcomment]

/-- The comment `%c`, up to the end of its line. -/
def Separator.comment : Separator :=
  ⟨[0x25, 0x63, 0x0A], .comment (List.forall_mem_singleton.mpr (by decide)) (by decide) .nil,
    List.cons_ne_nil _ _⟩

def Separator.space : Separator := ⟨[0x20], .space, Byte.space_ne_nil⟩

/-- An integer, and behind a comment a reference. -/
def commentedItems : List Item :=
  [⟨[], .integer 1, Token.printInteger 1, [], false⟩,
    ⟨Separator.comment.text, .reference ⟨7, 0⟩, digits 7,
      [0x20] ++ (digits 0 ++ ([0x20] ++ ascii "R")), false⟩]

theorem spelled_commentedItems : Spelled true (.array [.integer 1, .reference ⟨7, 0⟩]) [0x5B]
    (commentedItems.flatMap Item.text ++ (Separator.comment.text ++ [0x5D])) false := by
  have spelled : ∀ p ∈ commentedItems, Spelled true p.value p.head p.body p.split :=
    List.forall_mem_cons.mpr ⟨.integer 1, List.forall_mem_singleton.mpr
      (.reference ⟨7, 0⟩ Separator.space.isGap Separator.space.isGap Separator.space.ne_nil
        Separator.space.ne_nil)⟩
  refine .array spelled ⟨?_, ?_⟩ Separator.comment.isGap
  · exact List.forall_mem_cons.mpr ⟨.nil, List.forall_mem_singleton.mpr Separator.comment.isGap⟩
  · exact List.forall_mem_singleton.mpr Separator.comment.ne_nil

/-- Comments behind `obj`, between the items of an array and behind the array change nothing. -/
theorem commentedItems_same :
    (read Options.strict.toTolerance).value? ⟨0, ascii "[1%c\n7 0 R%c\n]"⟩ =
      (read Options.strict.toTolerance).value? ⟨0, ascii "[1 7 0 R]"⟩ ∧
    (readDefinition Options.strict.toTolerance).value?
        ⟨0, ascii "3 0 obj%c\n[1%c\n7 0 R%c\n]%c\nendobj"⟩ =
      (readDefinition Options.strict.toTolerance).value? ⟨0, ascii "3 0 obj [1 7 0 R] endobj"⟩ := by
  have hx : Printable (.array [.integer 1, .reference ⟨7, 0⟩]) :=
    .array (List.forall_mem_cons.mpr ⟨.integer (by decide),
      List.forall_mem_singleton.mpr (.reference (by decide) (by decide))⟩)
  obtain ⟨hobject, hdefinition⟩ :=
    same_value_iff plainStyle Options.strict.toTolerance hx spelled_commentedItems 0
  have hsame := (hdefinition ⟨3, 0⟩ (by decide) (by decide) ⟨.space, .space, .comment, .comment⟩
    ⟨.space, .space, .space, .space⟩ (by decide) [] Bytes.stops_nil).mpr (Or.inl ⟨by decide, rfl⟩)
  have htext : [0x5B] ++ (commentedItems.flatMap Item.text ++ (Separator.comment.text ++ [0x5D])) =
      ascii "[1%c\n7 0 R%c\n]" := by decide +kernel
  have hplain : (array [.integer 1, .reference ⟨7, 0⟩]).print plainStyle = ascii "[1 7 0 R]" := by
    decide +kernel
  rw [htext, hplain] at hobject hsame
  have hdefinitionText : Separators.definitionText ⟨.space, .space, .comment, .comment⟩ ⟨3, 0⟩
      (ascii "[1%c\n7 0 R%c\n]") [] = ascii "3 0 obj%c\n[1%c\n7 0 R%c\n]%c\nendobj" := by
    decide +kernel
  have hplainText : Separators.definitionText ⟨.space, .space, .space, .space⟩ ⟨3, 0⟩
      (ascii "[1 7 0 R]") [] = ascii "3 0 obj [1 7 0 R] endobj" := by
    decide +kernel
  rw [hdefinitionText, hplainText] at hsame
  exact ⟨hobject.mpr (Or.inl rfl), hsame⟩

/-- A reference with a comment in it is an integer, and a header with a comment is none. -/
theorem split_by_comment :
    (read Options.strict.toTolerance).value? ⟨0, ascii "1 0 R"⟩ = some (.reference ⟨1, 0⟩) ∧
    (read Options.strict.toTolerance).value? ⟨0, ascii "1%c\n0 R"⟩ = some (.integer 1) ∧
    (readDefinition Options.strict.toTolerance).value? ⟨0, ascii "1 0 obj null endobj"⟩ =
      some (⟨1, 0⟩, .null) ∧
    (readDefinition Options.strict.toTolerance).value? ⟨0, ascii "1%c\n0 obj null endobj"⟩ =
      none := by
  have hx : Printable (.reference ⟨1, 0⟩) := .reference (by decide) (by decide)
  have hspelled : Spelled true (.reference ⟨1, 0⟩) _ _ true :=
    .reference ⟨1, 0⟩ Separator.comment.isGap Separator.space.isGap Separator.comment.ne_nil
      Separator.space.ne_nil
  have hspelledNull : Spelled true .null _ _ false := .null
  have hplain := (spelled_print plainStyle hx).value?_read hx ends_nil Options.strict.toTolerance 0
  have hsplit := hspelled.value?_read hx ends_nil Options.strict.toTolerance 0
  have hheader := fun s : Separators =>
    @Spelled.value?_readDefinition _ _ _ _ _ [] hspelledNull .null ⟨1, 0⟩ (by decide) (by decide) s
      Bytes.stops_nil Options.strict.toTolerance 0
  have htext : (reference ⟨1, 0⟩).leadText plainStyle ++
      ((reference ⟨1, 0⟩).body plainStyle ++ []) = ascii "1 0 R" := by decide +kernel
  have hsplitText : digits 1 ++ (Separator.comment.text ++ (digits 0 ++
      (Separator.space.text ++ ascii "R")) ++ []) = ascii "1%c\n0 R" := by decide +kernel
  have hnull : Separators.definitionText ⟨.space, .space, .space, .space⟩ ⟨1, 0⟩
      (ascii "null" ++ []) [] = ascii "1 0 obj null endobj" := by decide +kernel
  have hcomment : Separators.definitionText ⟨.comment, .space, .space, .space⟩ ⟨1, 0⟩
      (ascii "null" ++ []) [] = ascii "1%c\n0 obj null endobj" := by decide +kernel
  rw [htext] at hplain
  rw [hsplitText] at hsplit
  have hread := hheader ⟨.space, .space, .space, .space⟩
  have hnone := hheader ⟨.comment, .space, .space, .space⟩
  rw [hnull] at hread
  rw [hcomment] at hnone
  exact ⟨hplain, hsplit, hread, hnone⟩

end Object

end CrossReference
