import CrossReference.Proofs.Object.Nested

set_option autoImplicit false

/-! # Printed objects are read back

The canonical text of an object is one of its spellings (`spelled_print`), so the reader takes it
for the object that was printed, if it may nest deep enough, and gives up for the nesting if it may
not (`read_print`). -/

namespace CrossReference

open Bytes (Stops)

/-! ## Gaps of the canonical text -/

/-- A list with the gaps of the canonical text: the white space behind the opening bracket in front
    of the first, and a space in front of each other. -/
def withGaps {α β : Type} (item : Bytes → α → β) (pad : Bytes) : List α → List β
  | [] => []
  | a :: rest => item pad a :: rest.map (item [0x20])

section Gaps

variable {α β : Type} {item : Bytes → α → β} {pad : Bytes}

theorem mem_withGaps {b : β} {list : List α} (h : b ∈ withGaps item pad list) :
    ∃ gap, ∃ a ∈ list, b = item gap a := by
  cases list with
  | nil => cases h
  | cons a rest =>
    rcases List.mem_cons.mp h with rfl | h
    · exact ⟨pad, a, List.mem_cons_self, rfl⟩
    · obtain ⟨a', hmem, rfl⟩ := List.mem_map.mp h
      exact ⟨[0x20], a', List.mem_cons_of_mem a hmem, rfl⟩

/-- What the gaps stand in front of is the list itself. -/
theorem map_withGaps {value : β → α} (h : ∀ gap a, value (item gap a) = a) (list : List α) :
    (withGaps item pad list).map value = list := by
  cases list with
  | nil => rfl
  | cons a rest => simp [withGaps, h, Function.comp_def]

theorem gaps_withGaps {gapOf : β → Bytes} (h : ∀ gap a, gapOf (item gap a) = gap)
    (hpad : ∀ b ∈ pad, Byte.isWhite b = true) (list : List α) :
    Object.Gaps ((withGaps item pad list).map gapOf) := by
  cases list with
  | nil => constructor <;> exact fun _ hgap => nomatch hgap
  | cons a rest =>
    have hspaces : ∀ gap ∈ (rest.map (item [0x20])).map gapOf, gap = [0x20] := by
      simp [h]
    rw [withGaps, List.map_cons, h]
    constructor
    · rintro gap (_ | ⟨_, hgap⟩)
      · exact .of_white hpad
      · rw [hspaces gap hgap]
        exact .space
    · intro gap hgap
      rw [hspaces gap hgap]
      exact List.cons_ne_nil _ _

/-- What is written between brackets of the canonical text is a list with gaps, and a gap behind
    it. -/
theorem bracketed_withGaps {text : β → Bytes} {printed : α → Bytes}
    (h : ∀ gap a, text (item gap a) = gap ++ printed a)
    (hpad : ∀ b ∈ pad, Byte.isWhite b = true) (closing : Bytes) (list : List α) :
    ∃ gap, Gap gap ∧ bracketed [] pad closing (list.map printed) =
      (withGaps item pad list).flatMap text ++ (gap ++ closing) := by
  cases list with
  | nil =>
    exact ⟨pad ++ pad, (Gap.of_white hpad).append (.of_white hpad), by simp [bracketed, spaced,
      withGaps]⟩
  | cons a rest =>
    refine ⟨pad, .of_white hpad, ?_⟩
    simp [bracketed, spaced, withGaps, h, List.flatMap_map]

end Gaps

namespace Object

open Reader

variable {style : PrintStyle} {tolerance : Tolerance} {x : Object}

/-- An item of the canonical text. -/
def printedItem (style : PrintStyle) (gap : Bytes) (x : Object) : Item :=
  ⟨gap, x, x.leadText style, x.body style, false⟩

/-- An entry of the canonical text. -/
def printedEntry (style : PrintStyle) (gap : Bytes) (e : Name × Object) : NamedItem :=
  ⟨printedItem style [0x20] e.2, gap, e.1⟩

theorem text_printedItem (gap : Bytes) (x : Object) :
    (printedItem style gap x).text = gap ++ x.print style := by
  rw [print_eq]
  rfl

theorem text_printedEntry (gap : Bytes) (e : Name × Object) :
    (printedEntry style gap e).text style.upperHex = gap ++ printEntry style e := by
  rw [printEntry, print_eq]
  rfl

/-- The canonical text of an object is one of its spellings, without a comment. -/
theorem spelled_print (style : PrintStyle) (h : Printable x) :
    Spelled style.upperHex x (x.leadText style) (x.body style) false := by
  induction h with
  | null => exact .null
  | bool value => exact .bool value
  | integer => exact .integer _
  | string bytes => exact .string bytes
  | name value => exact .name value
  | @reference key _ _ =>
    exact .reference key .space .space Byte.space_ne_nil Byte.space_ne_nil
  | @array items printable ih =>
    obtain ⟨gap, hgap, htext⟩ :=
      bracketed_withGaps text_printedItem style.arrayPad_white [0x5D] items
    have spelled : ∀ p ∈ withGaps (printedItem style) style.arrayPad items,
        Spelled style.upperHex p.value p.head p.body p.split := fun p hp => by
      obtain ⟨_, x, hx, rfl⟩ := mem_withGaps hp
      exact ih x hx
    have hsplit : (withGaps (printedItem style) style.arrayPad items).any Item.split = false :=
      List.any_eq_false.mpr fun p hp => by
        obtain ⟨_, _, _, rfl⟩ := mem_withGaps hp
        exact Bool.false_ne_true
    have hspelled := Spelled.array spelled
      (gaps_withGaps (fun _ _ => rfl) style.arrayPad_white items) hgap
    rw [map_withGaps fun _ _ => rfl, ← htext, hsplit] at hspelled
    exact hspelled
  | @dict entries distinct printable ih =>
    obtain ⟨gap, hgap, htext⟩ :=
      bracketed_withGaps text_printedEntry style.dictPad_white [0x3E, 0x3E] entries
    have spelled : ∀ p ∈ withGaps (printedEntry style) style.dictPad entries,
        Spelled style.upperHex p.value p.head p.body p.split := fun p hp => by
      obtain ⟨_, e, he, rfl⟩ := mem_withGaps hp
      exact ih e he
    have values : ∀ p ∈ withGaps (printedEntry style) style.dictPad entries,
        Gap p.gap ∧ p.gap ≠ [] := fun p hp => by
      obtain ⟨_, _, _, rfl⟩ := mem_withGaps hp
      exact ⟨.space, Byte.space_ne_nil⟩
    have hsplit : (withGaps (printedEntry style) style.dictPad entries).any (fun p => p.split) =
        false :=
      List.any_eq_false.mpr fun p hp => by
        obtain ⟨_, _, _, rfl⟩ := mem_withGaps hp
        exact Bool.false_ne_true
    have hspelled := Spelled.dict spelled
      (gaps_withGaps (fun _ _ => rfl) style.dictPad_white entries) hgap values
    rw [map_withGaps fun _ _ => rfl, ← htext, hsplit] at hspelled
    exact hspelled

/-- The reader of an object takes what is printed, if it may nest as deep as the object is. -/
theorem reads_ofToken (h : Printable x) {nesting : Nat} (hdepth : x.depth ≤ nesting) :
    Accepts (ofToken tolerance nesting) x (x.body style) :=
  (spelled_print style h).accepts h rfl hdepth

/-- The reader of an object gives up for the nesting if it may not nest as deep as the object is. -/
theorem fails_ofToken (h : Printable x) {nesting : Nat} (hdepth : nesting < x.depth)
    (position : Nat) (rest : Bytes) (hends : Ends rest) :
    ∃ place c, ofToken tolerance nesting x.lead ⟨position, x.body style ++ rest⟩ =
      .error (.malformed place (.nesting tolerance.maxNesting)) c := by
  obtain ⟨e, c, hread, he⟩ :=
    (spelled_print style h).rejects h (Or.inl hdepth) position rest hends
  obtain ⟨place, rfl⟩ := he rfl
  exact ⟨place, c, hread⟩

/-- The reader comes to the body of an object with its first token. -/
theorem Spelled.read_eq {upper split : Bool} {head body : Bytes}
    (h : Spelled upper x head body split) (hx : Printable x) (tolerance : Tolerance) {rest : Bytes}
    (hstop : Stops Byte.isRegular rest) (position : Nat) :
    read tolerance ⟨position, head ++ (body ++ rest)⟩ =
      ofToken tolerance tolerance.maxNesting x.lead ⟨position + head.length, body ++ rest⟩ :=
  bind_of_ok (h.significant hx .nil hstop position)

theorem read_eq_ofToken (style : PrintStyle) (tolerance : Tolerance) (h : Printable x)
    {rest : Bytes} (hstop : Stops Byte.isRegular rest) (position : Nat) :
    read tolerance ⟨position, x.print style ++ rest⟩ =
      ofToken tolerance tolerance.maxNesting x.lead
        ⟨position + (x.leadText style).length, x.body style ++ rest⟩ := by
  rw [print_eq, List.append_assoc]
  exact (spelled_print style h).read_eq h tolerance hstop position

/-- The text of an object is read as the object, up to the end of the text, if the nesting allows
    its depth. If it does not, the reader fails for the nesting. -/
theorem read_print (style : PrintStyle) (tolerance : Tolerance) {x : Object} (h : Printable x)
    (position : Nat) :
    (x.depth ≤ tolerance.maxNesting →
      read tolerance ⟨position, x.print style⟩ =
        .ok x ⟨position + (x.print style).length, []⟩) ∧
    (tolerance.maxNesting < x.depth →
      ∃ place c, read tolerance ⟨position, x.print style⟩ =
        .error (.malformed place (.nesting tolerance.maxNesting)) c) := by
  have hlead := read_eq_ofToken style tolerance h Bytes.stops_nil position
  rw [List.append_nil] at hlead
  rw [hlead]
  constructor
  · intro hdepth
    rw [print_eq, List.length_append, ← Nat.add_assoc]
    exact reads_ofToken h hdepth _ [] ends_nil
  · intro hdepth
    exact fails_ofToken h hdepth _ [] ends_nil

/-- Capital hexadecimal digits, and spaces inside the brackets of dictionaries only. -/
def plainStyle : PrintStyle := ⟨true, [], [0x20], Byte.nil_white, Byte.space_white⟩

/-- An integer in front of a reference, a name of bytes that need escapes, and brackets three deep.
    -/
def sampleObject : Object :=
  .dict ⟨[("A", .array [.integer 1, .integer (-9223372036854775808), .reference ⟨7, 4294967295⟩]),
    ("# (", .dict ⟨[("Deep", .array [.string [0x00, 0x3E]])]⟩), ("", .bool true)]⟩

theorem printable_sampleObject : sampleObject.Printable := by
  refine .dict (by decide) (List.forall_mem_cons.mpr ⟨.array ?_,
    List.forall_mem_cons.mpr ⟨.dict (by decide) ?_, List.forall_mem_cons.mpr ⟨.bool true, ?_⟩⟩⟩)
  · exact List.forall_mem_cons.mpr ⟨.integer (by decide), List.forall_mem_cons.mpr
      ⟨.integer (by decide), List.forall_mem_singleton.mpr (.reference (by decide) (by decide))⟩⟩
  · exact List.forall_mem_singleton.mpr (.array (List.forall_mem_singleton.mpr (.string _)))
  · exact fun e he => absurd he List.not_mem_nil

/-- The sample is read if three levels of nesting are allowed, and not if two are. -/
theorem sampleObject_read :
    sampleObject.print plainStyle = ascii ("<< /A [1 -9223372036854775808 7 4294967295 R] " ++
      "/#23#20#28 << /Deep [<003E>] >> / true >>") ∧
    read { Options.strict with maxNesting := 3 }.toTolerance ⟨0, sampleObject.print plainStyle⟩ =
      .ok sampleObject ⟨(sampleObject.print plainStyle).length, []⟩ ∧
    ∃ place c, read { Options.strict with maxNesting := 2 }.toTolerance
      ⟨0, sampleObject.print plainStyle⟩ = .error (.malformed place (.nesting 2)) c := by
  refine ⟨by decide +kernel, ?_, ?_⟩
  · have hread := (read_print plainStyle { Options.strict with maxNesting := 3 }.toTolerance
      printable_sampleObject 0).1 (by decide)
    rwa [Nat.zero_add] at hread
  · exact (read_print plainStyle { Options.strict with maxNesting := 2 }.toTolerance
      printable_sampleObject 0).2 (by decide)

end Object

end CrossReference
