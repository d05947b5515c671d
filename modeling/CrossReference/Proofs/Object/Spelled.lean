import CrossReference.Proofs.Object.Extension
import CrossReference.Proofs.Object.Printed
import CrossReference.Proofs.Token.Gap

set_option autoImplicit false

/-! # Objects with gaps between their tokens

The tokens of an object are written as in its canonical text, and between them stand gaps of white
space and comments (`Spelled`). What such a text may be followed by is the same for all objects
(`Ends`): nothing that would make its last token longer, no tokens that would make a reference of an
integer, and no keyword that would make a stream of a dictionary. What follows an item inside
brackets is always of this kind, also if it begins with comments. -/

namespace CrossReference

open Bytes (Stops)
open Decimal (digits)

/-! ## What may follow -/

namespace Reader

/-- A token that can stand behind an object without being taken for a part of it. -/
def Apart (t : Token) : Prop :=
  t ≠ .reserved .stream ∧ t ≠ .keyword (ascii "R") ∧ ∀ line, t ≠ .comment line

/-- A text that does not go on what stands in front of it: neither a dictionary as a stream, nor
    one integer as a reference, nor two of them. -/
structure Unrelated (text : Bytes) : Prop where
  stream : ∀ position c, significant ⟨position, text⟩ ≠ .ok (.reserved .stream) c
  word : ∀ position c, token ⟨position, text⟩ ≠ .ok (.keyword (ascii "R")) c
  reference : ∀ position value, reference? value ⟨position, text⟩ = none

/-- A text that is no part of the object in front of it. -/
structure Ends (text : Bytes) : Prop extends Unrelated text where
  stops : Stops Byte.isRegular text

/-- An integer begins no reference if another token follows it, or an integer behind which the
    keyword of references does not stand. -/
theorem reference?_eq_none {value : Int} {c c₁ : Cursor} {t : Token} (h : token c = .ok t c₁)
    (hword : ∀ generation, t = .integer generation →
      ∀ c₂, token c₁ ≠ .ok (.keyword (ascii "R")) c₂) : reference? value c = none := by
  unfold reference?
  split
  · rename_i generation c' hfirst
    cases h.symm.trans hfirst
    split
    · rename_i key word c₂ _ hsecond
      refine if_neg ?_
      rintro rfl
      exact hword generation rfl c₂ hsecond
    · rfl
  · rfl

/-- What begins with a token that stands apart is unrelated, if an integer is not followed by the
    keyword of references. -/
theorem unrelated_of_token {text : Bytes} {t : Token} (happart : Apart t)
    (hread : ∀ position, ∃ c, token ⟨position, text⟩ = .ok t c ∧
      ∀ generation, t = .integer generation → ∀ c', token c ≠ .ok (.keyword (ascii "R")) c') :
    Unrelated text := by
  obtain ⟨hstream, hkeyword, hcomment⟩ := happart
  refine ⟨fun position c h => ?_, fun position c h => ?_, fun position value => ?_⟩
  · obtain ⟨c', hfirst, _⟩ := hread position
    rcases token_of_significant h Token.noConfusion with ⟨line, c'', hline⟩ | hplain
    · exact hcomment line (by cases hfirst.symm.trans hline; rfl)
    · exact hstream (by cases hfirst.symm.trans hplain; rfl)
  · obtain ⟨c', hfirst, _⟩ := hread position
    exact hkeyword (by cases hfirst.symm.trans h; rfl)
  · obtain ⟨c', hfirst, hword⟩ := hread position
    exact reference?_eq_none hfirst hword

variable {gap text rest : Bytes}

/-- A comment is no part of a reference. -/
theorem reference?_gap_comment (h : Gap gap) (hcomment : 0x25 ∈ gap) (value : Int)
    (position : Nat) (text : Bytes) : reference? value ⟨position, gap ++ text⟩ = none := by
  obtain ⟨line, c, hread⟩ := token_gap h hcomment position text
  exact reference?_eq_none hread fun _ => Token.noConfusion

theorem Unrelated.behind (h : Gap gap) (htext : Unrelated text) : Unrelated (gap ++ text) := by
  refine ⟨fun position c => ?_, fun position c => ?_, fun position value => ?_⟩
  · rw [significant_gap h]
    exact htext.stream _ c
  · by_cases hcomment : 0x25 ∈ gap
    · obtain ⟨line, c', hread⟩ := token_gap h hcomment position text
      rw [hread]
      exact fun heq => by cases heq
    · rw [token_white (h.isWhite_of_not_mem hcomment)]
      exact htext.word _ c
  · by_cases hcomment : 0x25 ∈ gap
    · exact reference?_gap_comment h hcomment value position text
    · have hnone := htext.reference (position + gap.length) value
      unfold reference? at hnone ⊢
      rwa [token_white (h.isWhite_of_not_mem hcomment)]

/-- Behind a gap that is not empty a text that is unrelated ends the object in front of it. -/
theorem ends_gap (h : Gap gap) (hne : gap ≠ []) (htext : Unrelated text) : Ends (gap ++ text) :=
  ⟨htext.behind h, h.stops hne text⟩

theorem Ends.behind (h : Gap gap) (htext : Ends text) : Ends (gap ++ text) :=
  ⟨htext.toUnrelated.behind h, h.stops_append htext.stops⟩

theorem ends_nil : Ends [] :=
  ⟨unrelated_of_token (t := .eof) ⟨Token.noConfusion, Token.noConfusion, fun _ => Token.noConfusion⟩
    fun _ => ⟨_, rfl, fun _ => Token.noConfusion⟩, Bytes.stops_nil⟩

/-- The end of an array ends its last item. -/
theorem ends_arrayClose (rest : Bytes) : Ends (0x5D :: rest) :=
  ⟨unrelated_of_token ⟨Token.noConfusion, Token.noConfusion, fun _ => Token.noConfusion⟩
    fun position => ⟨_, token_of_scan (Token.scan_arrayClose rest) position,
      fun _ => Token.noConfusion⟩, Bytes.stops_cons.mpr (by decide)⟩

/-- The end of a dictionary ends its last value. -/
theorem ends_dictClose (rest : Bytes) : Ends (0x3E :: 0x3E :: rest) :=
  ⟨unrelated_of_token ⟨Token.noConfusion, Token.noConfusion, fun _ => Token.noConfusion⟩
    fun position => ⟨_, token_of_scan (Token.scan_dictClose rest) position,
      fun _ => Token.noConfusion⟩, Bytes.stops_cons.mpr (by decide)⟩

/-- A name ends the value in front of it. -/
theorem ends_name (upper : Bool) (n : Name) (hstop : Stops Byte.isRegular rest) :
    Ends (Token.printName upper n ++ rest) :=
  ⟨unrelated_of_token ⟨Token.noConfusion, Token.noConfusion, fun _ => Token.noConfusion⟩
    fun position => ⟨_, token_of_scan (Token.scan_printName upper n hstop) position,
      fun _ => Token.noConfusion⟩, Bytes.stops_cons.mpr (by decide)⟩

/-- The end of a definition is unrelated to the object in it. -/
theorem unrelated_endObj (hstop : Stops Byte.isRegular rest) :
    Unrelated (Reserved.endObj.spelling ++ rest) :=
  unrelated_of_token ⟨by decide, by decide, fun _ => Token.noConfusion⟩
    fun position => ⟨_, token_of_scan (Token.scan_reserved .endObj hstop) position,
      fun _ => Token.noConfusion⟩

/-! ## The parts of a reference -/

/-- The generation of a reference, up to the gap behind it. -/
theorem token_generation {generation : Nat} (hle : generation ≤ Decimal.maxWord32)
    (hstop : Stops Byte.isRegular rest) (position : Nat) :
    token ⟨position, digits generation ++ rest⟩ =
      .ok (.integer generation) ⟨position + (digits generation).length, rest⟩ := by
  have hfits : generation ≤ Decimal.maxSigned64 := Nat.le_trans hle (by decide)
  have hread := token_of_scan (Token.scan_natural hfits (Token.stopsNumber_of_stops hstop)) position
  rwa [List.drop_left] at hread

/-- The keyword of references. -/
theorem token_R (hstop : Stops Byte.isRegular rest) (position : Nat) :
    token ⟨position, ascii "R" ++ rest⟩ = .ok (.keyword (ascii "R")) ⟨position + 1, rest⟩ :=
  token_of_scan (Token.scan_word 0x52 [] (by decide) (by decide) hstop) position

theorem significant_generation {generation : Nat} (hle : generation ≤ Decimal.maxWord32)
    (hgap : Gap gap) (hstop : Stops Byte.isRegular rest) (position : Nat) :
    significant ⟨position, gap ++ (digits generation ++ rest)⟩ =
      .ok (.integer generation) ⟨position + gap.length + (digits generation).length, rest⟩ := by
  rw [significant_gap hgap]
  exact significant_of_token (token_generation hle hstop _) Token.noConfusion
    fun _ => Token.noConfusion

theorem significant_R (hgap : Gap gap) (hstop : Stops Byte.isRegular rest)
    (position : Nat) :
    significant ⟨position, gap ++ (ascii "R" ++ rest)⟩ =
      .ok (.keyword (ascii "R")) ⟨position + gap.length + 1, rest⟩ := by
  rw [significant_gap hgap]
  exact significant_of_token (token_R hstop _) Token.noConfusion fun _ => Token.noConfusion

/-- The keyword of references alone makes no reference of an integer. -/
theorem reference?_gap_R (hgap : Gap gap) (hstop : Stops Byte.isRegular rest)
    (value : Int) (position : Nat) :
    reference? value ⟨position, gap ++ (ascii "R" ++ rest)⟩ = none := by
  by_cases hcomment : 0x25 ∈ gap
  · exact reference?_gap_comment hgap hcomment value position _
  · have hword := token_R hstop (position + gap.length)
    rw [← token_white (hgap.isWhite_of_not_mem hcomment)] at hword
    exact reference?_eq_none hword fun _ => Token.noConfusion

end Reader

/-! ## Texts with gaps -/

namespace Object

/-- An item of an array as it is written: the gap in front of it, the text of its first token, and
    what is written behind that. It may hold a reference that a comment splits. -/
structure Item where
  gap : Bytes
  value : Object
  head : Bytes
  body : Bytes
  split : Bool

/-- An item with its gap. -/
def Item.text (p : Item) : Bytes := p.gap ++ (p.head ++ p.body)

/-- A dictionary entry as it is written: its name, with the gap in front of it, and its value. -/
structure NamedItem extends Item where
  before : Bytes
  name : Name

/-- An entry with its gaps. -/
def NamedItem.text (upper : Bool) (p : NamedItem) : Bytes :=
  p.before ++ (Token.printName upper p.name ++ p.toItem.text)

/-- An entry without its gaps. -/
def NamedItem.entry (p : NamedItem) : Name × Object := (p.name, p.value)

/-- Gaps in front of the items between brackets. Only the first one may be empty. -/
structure Gaps (gaps : List Bytes) : Prop where
  isGap : ∀ gap ∈ gaps, Gap gap
  ne_nil : ∀ gap ∈ gaps.tail, gap ≠ []

/-- The texts of an object: the text of its first token and what is written behind that. The tokens
    are those of the canonical text, with any gaps between them. The flag says whether a comment
    splits a reference: whether one stands inside. -/
inductive Spelled (upper : Bool) : Object → (head body : Bytes) → (split : Bool) → Prop
  | null : Spelled upper null (ascii "null") [] false
  | bool (value : Bool) : Spelled upper (bool value) (ascii (toString value)) [] false
  | integer (value : Int) : Spelled upper (integer value) (Token.printInteger value) [] false
  | string (bytes : Bytes) : Spelled upper (string bytes) (Token.printString upper bytes) [] false
  | name (value : Name) : Spelled upper (name value) (Token.printName upper value) [] false
  | reference (key : Key) {gap gap' : Bytes} (isGap : Gap gap) (isGap' : Gap gap')
      (ne_nil : gap ≠ []) (ne_nil' : gap' ≠ []) :
      Spelled upper (reference key) (digits key.number)
        (gap ++ (digits key.generation ++ (gap' ++ ascii "R"))) (decide (0x25 ∈ gap ++ gap'))
  | array {items : List Item} {pad : Bytes}
      (spelled : ∀ p ∈ items, Spelled upper p.value p.head p.body p.split)
      (gaps : Gaps (items.map Item.gap)) (isGap : Gap pad) :
      Spelled upper (array (items.map Item.value)) [0x5B]
        (items.flatMap Item.text ++ (pad ++ [0x5D])) (items.any Item.split)
  | dict {entries : List NamedItem} {pad : Bytes}
      (spelled : ∀ p ∈ entries, Spelled upper p.value p.head p.body p.split)
      (gaps : Gaps (entries.map NamedItem.before)) (isGap : Gap pad)
      (values : ∀ p ∈ entries, Gap p.gap ∧ p.gap ≠ []) :
      Spelled upper (dict ⟨entries.map NamedItem.entry⟩) [0x3C, 0x3C]
        (entries.flatMap (NamedItem.text upper) ++ (pad ++ [0x3E, 0x3E]))
        (entries.any fun p => p.split)

open Reader

theorem apart_lead (x : Object) : Apart x.lead := by
  cases x <;> exact ⟨Token.noConfusion, Token.noConfusion, fun _ => Token.noConfusion⟩

variable {upper split : Bool} {x : Object} {head body rest : Bytes}

/-- The first token of an object's text is read as it is written, up to what is behind it. -/
theorem Spelled.scan (h : Spelled upper x head body split) (hx : Printable x)
    (hstop : Stops Byte.isRegular rest) :
    Token.scan (head ++ (body ++ rest)) = (.ok x.lead, head.length) := by
  cases h with
  | null => exact Token.scan_word 0x6E (ascii "ull") (by decide) (by decide) hstop
  | bool value =>
    cases value with
    | false => exact Token.scan_word 0x66 (ascii "alse") (by decide) (by decide) hstop
    | true => exact Token.scan_word 0x74 (ascii "rue") (by decide) (by decide) hstop
  | integer value =>
    cases hx with
    | integer fits => exact Token.scan_printInteger fits (Token.stopsNumber_of_stops hstop)
  | string bytes => exact Token.scan_printString upper bytes rest
  | name value => exact Token.scan_printName upper value hstop
  | reference key isGap _ ne_nil _ =>
    cases hx with
    | reference number_le =>
      rw [List.append_assoc]
      exact Token.scan_natural number_le (Token.stopsNumber_of_stops (isGap.stops ne_nil _))
  | array => exact Token.scan_arrayOpen _
  | dict => exact Token.scan_dictOpen _

theorem Spelled.token (h : Spelled upper x head body split) (hx : Printable x)
    (hstop : Stops Byte.isRegular rest) (position : Nat) :
    Reader.token ⟨position, head ++ (body ++ rest)⟩ =
      .ok x.lead ⟨position + head.length, body ++ rest⟩ := by
  have hread := token_of_scan (h.scan hx hstop) position
  rwa [List.drop_left] at hread

/-- The first token of an object is read behind a gap. -/
theorem Spelled.significant (h : Spelled upper x head body split) (hx : Printable x) {gap : Bytes}
    (hgap : Gap gap) (hstop : Stops Byte.isRegular rest) (position : Nat) :
    Reader.significant ⟨position, gap ++ (head ++ (body ++ rest))⟩ =
      .ok x.lead ⟨position + gap.length + head.length, body ++ rest⟩ := by
  rw [significant_gap hgap]
  exact significant_of_token (h.token hx hstop _) (by cases x <;> exact Token.noConfusion)
    (apart_lead x).2.2

theorem Printable.reference_le {key : Key} (h : Printable (.reference key)) :
    key.number ≤ Decimal.maxSigned64 ∧ key.generation ≤ Decimal.maxWord32 := by
  cases h with
  | reference number_le generation_le => exact ⟨number_le, generation_le⟩

theorem Spelled.reference_eq {key : Key} (h : Spelled upper (.reference key) head body split) :
    ∃ gap gap', Gap gap ∧ Gap gap' ∧ gap ≠ [] ∧ gap' ≠ [] ∧ head = digits key.number ∧
      body = gap ++ (digits key.generation ++ (gap' ++ ascii "R")) ∧
      split = decide (0x25 ∈ gap ++ gap') := by
  cases h with
  | reference key isGap isGap' ne_nil ne_nil' =>
    exact ⟨_, _, isGap, isGap', ne_nil, ne_nil', rfl, rfl, rfl⟩

/-- An object is unrelated to what stands in front of it: also behind an integer it does not begin
    the rest of a reference, since a keyword would have to follow its first token. -/
theorem Spelled.unrelated (h : Spelled upper x head body split) (hx : Printable x)
    (hends : Ends rest) : Unrelated (head ++ (body ++ rest)) := by
  refine unrelated_of_token (apart_lead x) fun position => ⟨_, h.token hx hends.stops position, ?_⟩
  intro generation hinteger c' hsecond
  cases h with
  | integer value => exact hends.word _ c' hsecond
  | @reference key gap gap' isGap isGap' ne_nil ne_nil' =>
    cases hx with
    | reference number_le generation_le =>
      rw [List.append_assoc, List.append_assoc, List.append_assoc] at hsecond
      by_cases hcomment : 0x25 ∈ gap
      · obtain ⟨line, c, hread⟩ := token_gap isGap hcomment (position + (digits key.number).length)
          (digits key.generation ++ (gap' ++ (ascii "R" ++ rest)))
        cases hread.symm.trans hsecond
      · have hread := token_generation generation_le (isGap'.stops ne_nil' (ascii "R" ++ rest))
          (position + (digits key.number).length + gap.length)
        rw [← token_white (isGap.isWhite_of_not_mem hcomment)] at hread
        cases hread.symm.trans hsecond
  | _ => cases hinteger

end Object

end CrossReference
