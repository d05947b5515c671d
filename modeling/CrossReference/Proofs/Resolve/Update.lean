import CrossReference.Proofs.Chain.Precedence
import CrossReference.Proofs.Chain.Start
import CrossReference.Proofs.Object.Written
import CrossReference.Proofs.Resolve.Quiet
import CrossReference.Proofs.Section.Written
import CrossReference.Proofs.Token.Header

set_option autoImplicit false

/-! # Incremental updates

An update leaves a document as it is and adds to its end: objects, a table that locates them, and a
trailer that leads to the section that was the newest before. Readers that start at the new end come
upon the new table first and then walk as they did before, so its entries win over the old ones and
all others stay what they were (`resolve_update`). The size in the new trailer must be an integer of
the document syntax: if it is greater, the trailer cannot be read, and nothing leads to the older
sections any more (`oversized_update_cut_off`). -/

namespace CrossReference

open Bytes (Stops)
open Decimal (digits)

/-! ## Objects -/

/-- An object as an update brings it: its header, any bytes, and its end, on lines of their own. -/
structure Block where
  key : Key
  body : Bytes
  number_le : key.number ≤ Decimal.maxSigned64
  generation_lt : key.generation < 10 ^ 5

namespace Block

/-- What stands behind the header. -/
def tail (b : Block) : Bytes :=
  0x0A :: (b.body ++ 0x0A :: (Reserved.endObj.spelling ++ [0x0A]))

def text (b : Block) : Bytes :=
  digits b.key.number ++ 0x20 :: (digits b.key.generation ++ 0x20 ::
    (Reserved.obj.spelling ++ b.tail))

theorem numberForm_digits {n : Nat} (h : n ≤ Decimal.maxWord64) :
    ScanIndex.NumberForm (digits n) n where
  isDigit := Decimal.isDigit_digits
  ne_nil := Decimal.digits_ne_nil n
  short := Decimal.length_digits_le (by decide) (by unfold Decimal.maxWord64 at h; omega)
  value := Decimal.ofDigits_digits n
  fits := h

/-- The header of an object, with the whole text from there on. -/
def form (b : Block) (rest : Bytes) : ScanIndex.HeaderForm where
  key := b.key
  number := digits b.key.number
  space := [0x20]
  generation := digits b.key.generation
  gap := [0x20]
  tail := b.tail ++ rest
  isNumber := numberForm_digits (Nat.le_trans b.number_le (by decide))
  space_white := Byte.space_white
  space_ne_nil := List.cons_ne_nil _ _
  isGeneration := numberForm_digits (by
    have h := b.generation_lt
    unfold Decimal.maxWord64
    omega)
  generation_fits := by
    have h := b.generation_lt
    unfold Decimal.maxWord32
    omega
  gap_white := Byte.space_white
  ends := Bytes.stops_cons.mpr (by decide)

theorem text_form (b : Block) (rest : Bytes) : (b.form rest).text = b.text ++ rest := by
  unfold ScanIndex.HeaderForm.text ScanIndex.HeaderForm.ending form text
  simp only [List.append_assoc, List.cons_append, List.nil_append]

/-- An object is found where it begins. -/
theorem headerAt?_text (b : Block) (before rest : Bytes) :
    Sweep.headerAt? (before ++ (b.text ++ rest)) before.length = some b.key := by
  rw [Sweep.headerAt?_eq_some, List.drop_left, ← text_form]
  exact (b.form rest).header_text b.number_le before.length

end Block

/-- Objects, one behind the other. -/
def blocksText (blocks : List Block) : Bytes := blocks.flatMap Block.text

/-! ## Updates -/

/-- An update of a document. Its table locates objects that it brings itself, and its numbers fit
    the fields of a record. -/
structure Update (file : Bytes) where
  blocks : List Block
  subsections : List Section.Subsection
  size : Nat
  /-- The offset of the section that was the newest. -/
  prev : Nat
  closing : Bytes
  located : ∀ k offset, (k, .direct offset) ∈ subsections.flatMap Section.Subsection.records →
    ∃ before b after, blocks = before ++ b :: after ∧ b.key = k ∧
      offset = file.length + 1 + (blocksText before).length
  prev_lt : prev < 10 ^ 10
  xref_lt : file.length + 1 + (blocksText blocks).length < 10 ^ 10
  closes : StartLink.Closes closing

namespace Update

variable {file : Bytes} {options : Options}

/-- What the table of an update says. -/
def records (u : Update file) : List (Key × Entry) :=
  u.subsections.flatMap Section.Subsection.records

/-- The document up to the table of the update. -/
def front (u : Update file) : Bytes := file ++ 0x0A :: blocksText u.blocks

/-- The offset of the table. -/
def xrefOffset (u : Update file) : Nat := u.front.length

/-- The offset of the trailer. -/
def trailerOffset (u : Update file) : Nat :=
  u.xrefOffset + Section.trailerDistance u.subsections

/-- The trailer gives a size and leads to the older section. -/
def trailer (u : Update file) : List NumberEntry :=
  [⟨ascii "Size", u.size, List.all_eq_true.mp (by decide)⟩,
    ⟨ascii "Prev", u.prev, List.all_eq_true.mp (by decide)⟩]

/-- The bytes from the table on. -/
def ending (u : Update file) : Bytes :=
  Section.tableText u.subsections ++
    (dictText u.trailer ++ 0x0A :: StartLink.text u.xrefOffset u.closing)

/-- What is added to the document, behind a line feed. -/
def more (u : Update file) : Bytes := blocksText u.blocks ++ u.ending

/-- What is added to the document. -/
def text (u : Update file) : Bytes := 0x0A :: u.more

theorem xrefOffset_lt (u : Update file) : u.xrefOffset < 10 ^ 10 := by
  have h := u.xref_lt
  unfold xrefOffset front
  rw [List.length_append, List.length_cons]
  omega

theorem length_le_xrefOffset (u : Update file) : file.length ≤ u.xrefOffset := by
  unfold xrefOffset front
  rw [List.length_append]
  omega

theorem append_text (u : Update file) : file ++ u.text = u.front ++ u.ending := by
  unfold text more front
  rw [List.append_assoc, List.cons_append]

/-! ### The new section -/

theorem get?_prev_trailer (u : Update file) :
    (dictOf u.trailer).get? "Prev" = some (.integer u.prev) := by
  have hname : (Name.ofString "Prev") = ⟨ascii "Prev"⟩ := rfl
  unfold dictOf trailer NumberEntry.addTo
  rw [List.foldl_cons, List.foldl_cons, List.foldl_nil, Dict.get?_insert, if_pos hname]

theorem get?_companion_trailer (u : Update file) :
    (dictOf u.trailer).get? "XRefStm" = none := by
  have hprev : (Name.ofString "XRefStm") ≠ ⟨ascii "Prev"⟩ := by decide
  have hsize : (Name.ofString "XRefStm") ≠ ⟨ascii "Size"⟩ := by decide
  unfold dictOf trailer NumberEntry.addTo
  rw [List.foldl_cons, List.foldl_cons, List.foldl_nil, Dict.get?_insert, if_neg hprev,
    Dict.get?_insert, if_neg hsize]
  rfl

theorem trailer_le (u : Update file) (hsize : u.size ≤ Decimal.maxSigned64) :
    ∀ e ∈ u.trailer, e.value ≤ Decimal.maxSigned64 := by
  have hprev : u.prev ≤ Decimal.maxSigned64 := by
    have h := u.prev_lt
    unfold Decimal.maxSigned64
    omega
  exact List.forall_mem_cons.mpr ⟨hsize, List.forall_mem_singleton.mpr hprev⟩

/-- The table is read with all its records and without complaints. -/
theorem readTable_text (tolerance : Tolerance) (u : Update file)
    (hsize : u.size ≤ Decimal.maxSigned64) :
    ∃ c, Section.readTable tolerance (file ++ u.text) u.xrefOffset =
      .ok (u.trailerOffset, dictOf u.trailer) ⟨c, u.records, []⟩ := by
  have hbehind : Stops Byte.isRegular
      (dictText u.trailer ++ 0x0A :: StartLink.text u.xrefOffset u.closing) :=
    Bytes.stops_cons.mpr (by decide)
  have hdict := Object.readDict_written tolerance (u.trailer_le hsize)
    (0x0A :: StartLink.text u.xrefOffset u.closing)
    (u.front.length + (Section.tableText u.subsections).length)
  rw [append_text, ending]
  exact ⟨_, Section.readTable_written u.subsections hbehind hdict⟩

theorem probe_text (tolerance : Tolerance) (u : Update file) :
    Section.probe tolerance (file ++ u.text) u.xrefOffset = some .table := by
  rw [append_text, ending]
  exact Section.probe_written tolerance u.front u.subsections _

theorem find_text (hwindow : 28 ≤ options.startWindow) (u : Update file) :
    StartLink.find options (file ++ u.text) = (some u.xrefOffset, []) := by
  have hsplit : file ++ u.text = (u.front ++ (Section.tableText u.subsections ++
      (dictText u.trailer ++ [0x0A]))) ++ StartLink.text u.xrefOffset u.closing := by
    rw [append_text, ending]
    simp only [List.append_assoc, List.cons_append, List.nil_append]
  rw [hsplit]
  exact StartLink.find_text hwindow _ u.xrefOffset_lt u.closes

/-- What a walk gets from the new section. -/
def leg (u : Update file) : Leg where
  offset := u.xrefOffset
  own := u.records
  trailers := [(dictOf u.trailer, u.trailerOffset)]
  revisions := [⟨u.xrefOffset, .table, u.trailerOffset⟩]
  next := some u.prev

theorem read_text (u : Update file) (hsize : u.size ≤ Decimal.maxSigned64) (hpositive : 0 < u.prev)
    (hprev : LinkRole.prev.holds options (file ++ u.text) u.prev = true) (visited : List Nat) :
    Leg.read options (file ++ u.text) visited u.xrefOffset = u.leg := by
  -- of the two links of a table the trailer has one
  have hcompanion : Leg.companionLink options (file ++ u.text) visited (dictOf u.trailer) =
      (none, []) := by
    unfold Leg.companionLink
    rw [get?_companion_trailer]
  have hlink : Leg.prevLink options (file ++ u.text) visited (dictOf u.trailer) =
      (some u.prev, []) := by
    unfold Leg.prevLink
    rw [get?_prev_trailer]
    obtain ⟨n, hn⟩ : ∃ n, u.prev = n + 1 := ⟨u.prev - 1, by omega⟩
    rw [hn] at hprev ⊢
    change (LinkRole.prev.target? options (file ++ u.text) visited (n + 1),
      LinkRole.prev.notes options (file ++ u.text) (n + 1)) = _
    rw [LinkRole.target?_of_holds visited hprev, LinkRole.notes_of_holds hprev]
  obtain ⟨c, hread⟩ := u.readTable_text options.toTolerance hsize
  unfold Leg.read
  rw [probe_text]
  dsimp only
  unfold Leg.table
  rw [hread]
  dsimp only
  unfold Leg.withCompanion
  rw [hcompanion]
  dsimp only
  unfold Leg.followedBy
  rw [Option.toList_none, List.nil_append, hlink]
  rfl

/-! ### The walk -/

/-- A walk over the longer document reads the new section and then those of the old walk. -/
theorem route_text (hliteral : options.Literal)
    (hwindow : 28 ≤ options.startWindow) (u : Update file) (hsize : u.size ≤ Decimal.maxSigned64)
    (quiet : Route.Quiet options file) (start : (StartLink.find options file).1 = some u.prev)
    (hpositive : 0 < u.prev) (few : (Route.legs options file).length < options.maxRevisions) :
    Route.legs options (file ++ u.text) = u.leg :: Route.legs options file ∧
      Route.Quiet options (file ++ u.text) := by
  have hold := quiet.holds start
  have hnew : LinkRole.start.holds options (file ++ u.text) u.xrefOffset = true := by
    unfold LinkRole.holds
    rw [probe_text]
    rfl
  have hstart := Route.start?_of_holds start hold
  have hstart' : Route.start? options (file ++ u.text) = some u.xrefOffset :=
    Route.start?_of_holds (by rw [u.find_text hwindow]) hnew
  obtain ⟨left, hleft⟩ : ∃ n, options.maxRevisions = n + 1 :=
    ⟨options.maxRevisions - 1, by omega⟩
  have hread : Leg.read options (file ++ u.text) [u.xrefOffset] u.xrefOffset = u.leg :=
    u.read_text hsize hpositive (LinkRole.holds_extend hliteral hold) _
  have hlater : ∀ x ∈ [u.xrefOffset], file.length ≤ x := by
    intro x hx
    rw [List.mem_singleton.mp hx]
    exact u.length_le_xrefOffset
  have hquiet := quiet.legs
  have hending := quiet.ending
  rw [Route.legs_of_start hstart] at hquiet few
  rw [Route.ending_of_start hstart] at hending
  -- behind the new section the walk goes on as the old one began
  obtain ⟨hrest, hlast⟩ := Route.legsFrom_extend hliteral hlater
    (LinkRole.lt_length_of_holds hold) hquiet hending (show _ ≤ left by omega)
  have hroute : Route.legs options (file ++ u.text) = u.leg :: Route.legs options file := by
    rw [Route.legs_of_start hstart', Route.legs_of_start hstart, hleft,
      Route.legsFrom_of_new rfl, hread]
    rw [hleft] at hrest
    exact congrArg (u.leg :: ·) hrest
  refine ⟨hroute, ?_, ?_, ?_⟩
  · unfold Route.startNotes
    rw [u.find_text hwindow]
    exact LinkRole.notes_of_holds hnew
  · rw [hroute, Route.legs_of_start hstart]
    intro l hl
    rcases List.mem_cons.mp hl with rfl | hl
    · rfl
    · exact hquiet l hl
  · rw [Route.ending_of_start hstart', hleft, Route.endingFrom_of_new rfl, hread]
    exact hlast

/-! ### The table -/

/-- The new table locates the objects of the update. -/
theorem headerAt?_of_records (u : Update file) {k : Key} {offset : Nat}
    (h : (k, .direct offset) ∈ u.records) : Sweep.headerAt? (file ++ u.text) offset = some k := by
  obtain ⟨before, b, after, hblocks, rfl, rfl⟩ := u.located k offset h
  have hsplit : file ++ u.text =
      (file ++ 0x0A :: blocksText before) ++ (b.text ++ (blocksText after ++ u.ending)) := by
    unfold text more blocksText
    rw [hblocks]
    simp only [List.flatMap_append, List.flatMap_cons, List.append_assoc, List.cons_append]
  have hlength : file.length + 1 + (blocksText before).length =
      (file ++ 0x0A :: blocksText before).length := by
    rw [List.length_append, List.length_cons]
    omega
  rw [hsplit, hlength]
  exact b.headerAt?_text _ _

theorem get?_walk_text (u : Update file)
    (hlegs : Route.legs options (file ++ u.text) = u.leg :: Route.legs options file) (k : Key) :
    (Chain.walk options (file ++ u.text)).table.get? k =
      (OrderedMap.lookup k u.records).or ((Chain.walk options file).table.get? k) := by
  have hown : u.leg.listed? k = OrderedMap.lookup k u.records := Leg.shown_none _
  rw [Chain.get?_walk, Chain.get?_walk, hlegs, List.findSome?_cons, hown]
  cases OrderedMap.lookup k u.records <;> rfl

/-- The offsets of the longer document are right if those of the old one were. -/
theorem confirmed_text (u : Update file)
    (hlegs : Route.legs options (file ++ u.text) = u.leg :: Route.legs options file)
    (h : Sweep.Confirmed file (Chain.walk options file).table) :
    Sweep.Confirmed (file ++ u.text) (Chain.walk options (file ++ u.text)).table := by
  intro k offset hget
  rw [u.get?_walk_text hlegs] at hget
  cases hnew : OrderedMap.lookup k u.records with
  | some e =>
    rw [hnew, Option.some_or] at hget
    obtain rfl := Option.some.inj hget
    exact u.headerAt?_of_records (OrderedMap.mem_of_lookup hnew)
  | none =>
    rw [hnew, Option.none_or] at hget
    exact Sweep.headerAt?_extend (h k offset hget) u.more

end Update

/-- The update of a document that the strict reader resolves without complaints is resolved without
    complaints too, if the size in its trailer is an integer of the document syntax. Its entries win
    over those of the document, which are otherwise as before, and its table is a section in front
    of the sections of the document. -/
theorem Resolve.resolve_update {file : Bytes} {r : Resolution}
    (resolved : resolve .strict file = .ok r) (clean : r.diagnostics = []) (u : Update file)
    (size_le : u.size ≤ Decimal.maxSigned64)
    (start : (StartLink.find .strict file).1 = some u.prev) (positive : 0 < u.prev)
    (few : (Route.legs .strict file).length < Options.strict.maxRevisions) :
    ∃ r', resolve .strict (file ++ u.text) = .ok r' ∧ r'.diagnostics = [] ∧
      r'.table = (Table.ofList u.records).merge r.table ∧
      r'.revisions = ⟨u.xrefOffset, .table, u.trailerOffset⟩ :: r.revisions := by
  obtain ⟨quiet, rfl⟩ := quiet_of_resolve rfl rfl rfl resolved clean
  -- the walk over the longer document is quiet too, and has one section more
  obtain ⟨hlegs, hroute⟩ := u.route_text Options.literal_strict (by decide) size_le
    quiet.route start positive few
  have hold : (ofChain .strict file).table = (Chain.walk .strict file).table := by
    unfold ofChain
    rw [sweep_of_confirmed quiet.confirmed]
  -- what the document lists is still listed, if not with the same entry
  have hlists : ∃ k, (Chain.walk .strict (file ++ u.text)).table.get? k ≠ none := by
    obtain ⟨k, hk⟩ := quiet.lists
    refine ⟨k, ?_⟩
    rw [u.get?_walk_text hlegs, ne_eq, Option.or_eq_none_iff]
    exact fun h => hk h.2
  have hnew : Resolve.Quiet .strict (file ++ u.text) :=
    ⟨hroute, u.confirmed_text hlegs quiet.confirmed, hlists⟩
  refine ⟨_, resolve_of_quiet hnew, rfl, ?_, ?_⟩
  · refine Table.ext_of_tight (Chain.tight_walk _ _) ((Table.tight_ofList _).merge _) fun k => ?_
    rw [u.get?_walk_text hlegs, Table.get?_merge, Table.get?_ofList, hold]
  · change (Chain.walk .strict (file ++ u.text)).revisions =
      _ :: (Chain.walk .strict file).revisions
    rw [Chain.revisions_walk, Chain.revisions_walk, hlegs, List.flatMap_cons]
    rfl

/-- A document with one object. -/
def plainDocument : Bytes :=
  ["%PDF\n1 0 obj\n5\nendobj\n", "xref\n0 2\n0000000000 65535 f \n", "0000000005 00000 n \n",
    "trailer<</Size 2>>\n", "startxref\n22\n%%EOF"].flatMap ascii

/-- An update that replaces the object and adds another one. -/
def plainUpdate : Update plainDocument where
  blocks := [⟨⟨1, 0⟩, ascii "6", by decide, by decide⟩, ⟨⟨2, 0⟩, ascii "7", by decide, by decide⟩]
  subsections :=
    [⟨1, [⟨109, 0, true, .spaceFeed, by decide, by decide⟩,
      ⟨126, 0, true, .returnFeed, by decide, by decide⟩], by decide, by decide, by decide⟩]
  size := 3
  prev := 22
  closing := [0x0A]
  located := by
    have hlength : plainDocument.length = 108 := by decide +kernel
    intro k offset h
    rw [hlength]
    rcases List.mem_cons.mp h with hfirst | hsecond
    · obtain ⟨rfl, hoffset⟩ := Prod.mk.inj hfirst
      obtain rfl : offset = 109 := Entry.direct.inj hoffset
      exact ⟨[], _, _, rfl, rfl, rfl⟩
    · obtain ⟨rfl, hoffset⟩ := Prod.mk.inj (List.mem_singleton.mp hsecond)
      obtain rfl : offset = 126 := Entry.direct.inj hoffset
      exact ⟨[_], _, [], rfl, rfl, by decide +kernel⟩
  prev_lt := by decide
  xref_lt := by decide +kernel
  closes := ⟨List.all_eq_true.mp (by decide), by decide⟩

/-- The document is resolved without complaints, from its one section. -/
theorem plainDocument_resolved :
    resolve .strict plainDocument = .ok (Resolve.ofChain .strict plainDocument) ∧
      (Resolve.ofChain .strict plainDocument).diagnostics = [] ∧
      (StartLink.find .strict plainDocument).1 = some 22 ∧
      (Route.legs .strict plainDocument).length < Options.strict.maxRevisions := by
  have run : Resolve.chainServes .strict plainDocument = true ∧
      (Resolve.ofChain .strict plainDocument).diagnostics = [] ∧
      (StartLink.find .strict plainDocument).1 = some 22 ∧
      (Route.legs .strict plainDocument).length < Options.strict.maxRevisions := by decide +kernel
  obtain ⟨serves, rest⟩ := run
  exact ⟨by rw [Resolve.resolve_eq, if_pos serves], rest⟩

theorem plainDocument_updated :
    plainUpdate.size ≤ Decimal.maxSigned64 ∧
    ∃ r', resolve .strict (plainDocument ++ plainUpdate.text) = .ok r' ∧ r'.diagnostics = [] ∧
      r'.table.toList = [(⟨0, 65535⟩, .free 0), (⟨1, 0⟩, .direct 109), (⟨2, 0⟩, .direct 126)] := by
  obtain ⟨resolved, clean, start, few⟩ := plainDocument_resolved
  have size_le : plainUpdate.size ≤ Decimal.maxSigned64 := by decide
  have table : ((Table.ofList plainUpdate.records).merge
      (Resolve.ofChain .strict plainDocument).table).toList =
        [(⟨0, 65535⟩, .free 0), (⟨1, 0⟩, .direct 109), (⟨2, 0⟩, .direct 126)] := by decide +kernel
  obtain ⟨r', resolved', clean', table', _⟩ :=
    Resolve.resolve_update resolved clean plainUpdate size_le start (by decide) few
  exact ⟨size_le, r', resolved', clean', table'.symm ▸ table⟩

/-- An update that adds the object with the greatest number, and gives the size behind it. -/
def oversizedUpdate : Update plainDocument where
  blocks := [⟨⟨Decimal.maxSigned64, 0⟩, ascii "6", by decide, by decide⟩]
  subsections :=
    [⟨Decimal.maxSigned64, [⟨109, 0, true, .spaceFeed, by decide, by decide⟩], by decide,
      by decide, by decide⟩]
  size := Decimal.maxSigned64 + 1
  prev := 22
  closing := [0x0A]
  located := by
    have hlength : plainDocument.length = 108 := by decide +kernel
    intro k offset h
    rw [hlength]
    obtain ⟨rfl, hoffset⟩ := Prod.mk.inj (List.mem_singleton.mp h)
    obtain rfl : offset = 109 := Entry.direct.inj hoffset
    exact ⟨[], _, _, rfl, rfl, rfl⟩
  prev_lt := by decide
  xref_lt := by decide +kernel
  closes := ⟨List.all_eq_true.mp (by decide), by decide⟩

/-- The size is no integer of the document syntax, so the new trailer cannot be read. There is a
    complaint, no section counts as read, and the object of the document is gone. -/
theorem oversized_update_cut_off :
    (∃ r, resolve .strict plainDocument = .ok r ∧ r.diagnostics = [] ∧
      r.table.get? ⟨1, 0⟩ = some (.direct 5)) ∧
    (StartLink.find .strict plainDocument).1 = some oversizedUpdate.prev ∧
    0 < oversizedUpdate.prev ∧
    (Route.legs .strict plainDocument).length < Options.strict.maxRevisions ∧
    ∃ r', resolve .strict (plainDocument ++ oversizedUpdate.text) = .ok r' ∧
      r'.diagnostics ≠ [] ∧ r'.revisions = [] ∧ r'.table.get? ⟨1, 0⟩ = none := by
  obtain ⟨resolved, clean, start, few⟩ := plainDocument_resolved
  have old : (Resolve.ofChain .strict plainDocument).table.get? ⟨1, 0⟩ = some (.direct 5) := by
    decide +kernel
  have run : Resolve.chainServes .strict (plainDocument ++ oversizedUpdate.text) = true ∧
      (Resolve.ofChain .strict (plainDocument ++ oversizedUpdate.text)).diagnostics ≠ [] ∧
      (Resolve.ofChain .strict (plainDocument ++ oversizedUpdate.text)).revisions = [] ∧
      (Resolve.ofChain .strict (plainDocument ++ oversizedUpdate.text)).table.get? ⟨1, 0⟩ =
        none := by decide +kernel
  obtain ⟨serves, rest⟩ := run
  exact ⟨⟨_, resolved, clean, old⟩, start, by decide, few, _,
    by rw [Resolve.resolve_eq, if_pos serves], rest⟩

end CrossReference
