import CrossReference.ObjectStream
import CrossReference.Proofs.Object.RoundTrip

set_option autoImplicit false

/-! # Members of object streams

The data of an object stream is a header, with the number and the offset of each member, and the
objects themselves, one after the other. Each object is read from the middle of the data, and what
follows it there, the next objects or the end, is no part of it: not the rest of a reference behind
an integer, and no data behind a dictionary (`ends_objectsText`). So every member comes back as it
was put in, whatever stands next to it (`Packed.members_read`). -/

namespace CrossReference

open Bytes (Stops)
open Decimal (digits)

namespace ObjectStream

open Reader

/-! ## What is written -/

/-- A member as it is written: its number and its object, and the white space in front of the
    number, of the offset and of the object. -/
structure Member where
  number : Nat
  value : Object
  numberGap : Bytes
  offsetGap : Bytes
  gap : Bytes
  number_le : number ≤ Decimal.maxSigned64
  printable : value.Printable
  numberGap_white : ∀ b ∈ numberGap, Byte.isWhite b = true
  offsetGap_white : ∀ b ∈ offsetGap, Byte.isWhite b = true
  gap_white : ∀ b ∈ gap, Byte.isWhite b = true
  offsetGap_ne_nil : offsetGap ≠ []

section Text

variable (style : PrintStyle)

/-- The object of a member with its gap. -/
def Member.text (m : Member) : Bytes := m.gap ++ m.value.print style

/-- The objects of some members. -/
def objectsText (members : List Member) : Bytes := members.flatMap (Member.text style)

/-- What the header says of some members, with the objects of the first of them at an offset. -/
def listed (offset : Nat) : List Member → List (Nat × Nat)
  | [] => []
  | m :: rest => (m.number, offset + m.gap.length) :: listed (offset + (m.text style).length) rest

/-- The part of the header for some members. -/
def headerText (offset : Nat) : List Member → Bytes
  | [] => []
  | m :: rest => m.numberGap ++ (digits m.number ++ (m.offsetGap ++
      (digits (offset + m.gap.length) ++ headerText (offset + (m.text style).length) rest)))

end Text

/-- Data of an object stream: the members, white space behind the header, and white space behind
    the objects. White space separates the members, and the header does not run into the
    objects. -/
structure Packed (style : PrintStyle) where
  members : List Member
  pad : Bytes
  behind : Bytes
  numberGap_ne_nil : ∀ m ∈ members.tail, m.numberGap ≠ []
  gap_ne_nil : ∀ m ∈ members.tail, m.gap ≠ []
  pad_white : ∀ b ∈ pad, Byte.isWhite b = true
  behind_white : ∀ b ∈ behind, Byte.isWhite b = true
  stops : Stops Byte.isRegular (pad ++ (objectsText style members ++ behind))

namespace Packed

variable {style : PrintStyle} (p : Packed style)

def header : Bytes := headerText style 0 p.members ++ p.pad

def data : Bytes := p.header ++ (objectsText style p.members ++ p.behind)

end Packed

variable {style : PrintStyle} {tolerance : Tolerance} {members : List Member} {behind : Bytes}

/-! ## The header -/

theorem stops_headerText (style : PrintStyle) (hgaps : ∀ m ∈ members, m.numberGap ≠ [])
    {rest : Bytes} (hstop : Stops Byte.isRegular rest) (offset : Nat) :
    Stops Byte.isRegular (headerText style offset members ++ rest) := by
  cases members with
  | nil => exact hstop
  | cons m members =>
    rw [headerText, List.append_assoc]
    exact (Gap.of_white m.numberGap_white).stops (hgaps m List.mem_cons_self) _

/-- The number and the offset of a member. -/
theorem member_written (m : Member) {offset : Nat} (hoffset : offset ≤ Decimal.maxSigned64)
    {rest : Bytes} (hstop : Stops Byte.isRegular rest) (position : Nat) :
    ∃ position', member ⟨position,
        m.numberGap ++ (digits m.number ++ (m.offsetGap ++ (digits offset ++ rest)))⟩ =
      .ok (m.number, offset) ⟨position', rest⟩ := by
  have hfirst := integer_natural m.numberGap_white m.number_le
    ((Gap.of_white m.offsetGap_white).stops m.offsetGap_ne_nil (digits offset ++ rest)) position
  have hsecond := integer_natural m.offsetGap_white hoffset hstop
  have hnatural : (decide (0 ≤ (m.number : Int)) && decide (0 ≤ (offset : Int))) = true := by simp
  unfold member
  rw [bind_of_ok hfirst, bind_of_ok (hsecond _), if_pos hnatural]
  exact ⟨_, rfl⟩

/-- The header is read in full, by any reader. -/
theorem membersFrom_headerText (style : PrintStyle) (pedantic : Bool)
    (hgaps : ∀ m ∈ members.tail, m.numberGap ≠ []) {offset : Nat}
    (hle : offset + (objectsText style members).length ≤ Decimal.maxSigned64)
    {rest : Bytes} (hstop : Stops Byte.isRegular rest) (acc : List (Nat × Nat)) (position : Nat) :
    membersFrom pedantic acc ⟨position, headerText style offset members ++ rest⟩ members.length =
      .ok (acc.reverse ++ listed style offset members) := by
  induction members generalizing offset acc position with
  | nil => simp [membersFrom, listed]
  | cons m members ih =>
    rw [List.tail_cons] at hgaps
    rw [objectsText, List.flatMap_cons, List.length_append] at hle
    have hobject : (m.text style).length = m.gap.length + (m.value.print style).length :=
      List.length_append
    have hoffset : offset + m.gap.length ≤ Decimal.maxSigned64 := by omega
    obtain ⟨position', hread⟩ := member_written m hoffset
      (stops_headerText style hgaps hstop (offset + (m.text style).length)) position
    have hothers : ∀ m' ∈ members.tail, m'.numberGap ≠ [] := fun m' hm' =>
      hgaps m' (List.mem_of_mem_tail hm')
    rw [headerText, List.append_assoc, List.append_assoc, List.append_assoc, List.append_assoc,
      List.length_cons, membersFrom, hread]
    dsimp only
    rw [ih hothers (by unfold objectsText; omega), listed, List.reverse_cons, List.append_assoc,
      List.singleton_append]

/-! ## The objects -/

/-- The objects behind another one, up to the end of the data, end it. -/
theorem ends_objectsText (style : PrintStyle) (hgaps : ∀ m ∈ members, m.gap ≠ [])
    (hbehind : ∀ b ∈ behind, Byte.isWhite b = true) :
    Ends (objectsText style members ++ behind) := by
  induction members with
  | nil =>
    have hends := ends_nil.behind (Gap.of_white hbehind)
    rwa [List.append_nil] at hends
  | cons m members ih =>
    obtain ⟨hgap, hgaps⟩ := List.forall_mem_cons.mp hgaps
    have hobject := (Object.spelled_print style m.printable).unrelated m.printable (ih hgaps)
    rw [objectsText, List.flatMap_cons, Member.text, List.append_assoc, List.append_assoc,
      Object.print_eq, List.append_assoc]
    exact ends_gap (.of_white m.gap_white) hgap hobject

/-- An object among the others is read as it is. -/
theorem read_among (style : PrintStyle) (m : Member) (hgaps : ∀ m' ∈ members, m'.gap ≠ [])
    (hbehind : ∀ b ∈ behind, Byte.isWhite b = true)
    (hdepth : m.value.depth ≤ tolerance.maxNesting) (position : Nat) :
    ∃ c, Object.read tolerance
      ⟨position, m.value.print style ++ (objectsText style members ++ behind)⟩ = .ok m.value c := by
  have hends := ends_objectsText style hgaps hbehind
  have hlead := Object.read_eq_ofToken style tolerance m.printable hends.stops position
  exact ⟨_, hlead.trans (Object.reads_ofToken m.printable hdepth _ _ hends)⟩

theorem length_listed (style : PrintStyle) (offset : Nat) (members : List Member) :
    (listed style offset members).length = members.length := by
  induction members generalizing offset with
  | nil => rfl
  | cons m members ih => rw [listed, List.length_cons, List.length_cons, ih]

theorem map_fst_listed (offset : Nat) :
    (listed style offset members).map Prod.fst = members.map Member.number := by
  induction members generalizing offset with
  | nil => rfl
  | cons m members ih => rw [listed, List.map_cons, List.map_cons, ih]

theorem listed_append (front : List Member) (offset : Nat) :
    listed style offset (front ++ members) =
      listed style offset front ++
        listed style (offset + (objectsText style front).length) members := by
  induction front generalizing offset with
  | nil => rfl
  | cons m front ih =>
    rw [List.cons_append, listed, ih, listed, List.cons_append, objectsText, objectsText,
      List.flatMap_cons, List.length_append, Nat.add_assoc]

/-- The offset that the header gives to a member is where its object stands. -/
theorem getElem?_listed (style : PrintStyle) (front : List Member) (m : Member)
    (later : List Member) :
    (listed style 0 (front ++ m :: later))[front.length]? =
      some (m.number, (objectsText style front).length + m.gap.length) := by
  have hlength := length_listed style 0 front
  rw [listed_append, ← hlength, List.getElem?_append_right (Nat.le_refl _), Nat.sub_self, listed,
    List.getElem?_cons_zero, Nat.zero_add]

namespace Packed

variable (p : Packed style)

/-- The place that the header gives to a member. -/
theorem seek_data {front later : List Member} {m : Member} (h : p.members = front ++ m :: later) :
    Cursor.seek p.data (p.header.length + ((objectsText style front).length + m.gap.length)) =
      .ok ⟨p.header.length + ((objectsText style front).length + m.gap.length),
        m.value.print style ++ (objectsText style later ++ p.behind)⟩ := by
  have hdata : p.data = (p.header ++ (objectsText style front ++ m.gap)) ++
      (m.value.print style ++ (objectsText style later ++ p.behind)) := by
    rw [data, h]
    simp only [objectsText, List.flatMap_append, List.flatMap_cons, Member.text, List.append_assoc]
  have hoffset : p.header.length + ((objectsText style front).length + m.gap.length) =
      (p.header ++ (objectsText style front ++ m.gap)).length := by
    rw [List.length_append, List.length_append]
  have hle : (p.header ++ (objectsText style front ++ m.gap)).length ≤ p.data.length := by
    rw [hdata]
    exact (List.prefix_append _ _).length_le
  rw [hoffset, Cursor.seek, if_pos hle, hdata, List.drop_left]

/-- A member is read, whatever stands around it. -/
theorem object_written (tolerance : Tolerance) {front later : List Member} {m : Member}
    (h : p.members = front ++ m :: later) (hdepth : m.value.depth ≤ tolerance.maxNesting) :
    object ⟨p.data, p.header.length, listed style 0 p.members⟩ tolerance front.length =
      .ok m.value := by
  have hlater : ∀ m' ∈ later, m'.gap ≠ [] := fun m' hm' => by
    have htail : m' ∈ p.members.tail := by
      rw [h]
      cases front with
      | nil => exact hm'
      | cons m'' front => exact List.mem_append_right front (List.mem_cons_of_mem m hm')
    exact p.gap_ne_nil m' htail
  obtain ⟨c, hread⟩ := read_among style m hlater p.behind_white hdepth
    (p.header.length + ((objectsText style front).length + m.gap.length))
  have hlisted := getElem?_listed style front m later
  rw [← h] at hlisted
  unfold object
  dsimp only
  rw [hlisted]
  dsimp only
  rw [p.seek_data h]
  dsimp only
  rw [hread]

/-- An object stream is opened as it was packed, by strict and other readers: with all numbers in
    order, and each member is the object that was put there, whatever stands around it. -/
theorem members_read (tolerance : Tolerance) {entries : Dict Object} {stored : Bytes}
    (hdata : Filter.decodeStream entries stored = .ok p.data)
    (hcount : entries.get? "N" = some (.integer p.members.length))
    (hfirst : entries.get? "First" = some (.integer p.header.length))
    (hlength : (objectsText style p.members).length ≤ Decimal.maxSigned64)
    (hdepth : ∀ m ∈ p.members, m.value.depth ≤ tolerance.maxNesting) :
    ∃ s, ofStream tolerance entries stored = .ok s ∧ s.numbers = p.members.map Member.number ∧
      ∀ i m, p.members[i]? = some m → s.object tolerance i = .ok m.value := by
  have hheader : membersFrom tolerance.pedantic [] (.start p.data) p.members.length =
      .ok (listed style 0 p.members) := by
    have hle : 0 + (objectsText style p.members).length ≤ Decimal.maxSigned64 := by omega
    have hread :=
      membersFrom_headerText style tolerance.pedantic p.numberGap_ne_nil hle p.stops [] 0
    rwa [← List.append_assoc] at hread
  have hcount' : requiredNat entries "N" = .ok p.members.length := by
    rw [requiredNat, hcount]
    rfl
  have hfirst' : requiredNat entries "First" = .ok p.header.length := by
    rw [requiredNat, hfirst]
    rfl
  refine ⟨⟨p.data, p.header.length, listed style 0 p.members⟩, ?_, map_fst_listed 0, ?_⟩
  · unfold ofStream
    rw [hcount', hfirst', hdata]
    change Except.bind (membersFrom tolerance.pedantic [] (.start p.data) p.members.length) _ = _
    rw [hheader]
    rfl
  · intro i m hm
    obtain ⟨hi, hget⟩ := List.getElem?_eq_some_iff.mp hm
    have hmembers : p.members = p.members.take i ++ m :: p.members.drop (i + 1) := by
      rw [← hget, ← List.drop_eq_getElem_cons hi, List.take_append_drop]
    have hread := p.object_written tolerance hmembers (hdepth m (List.mem_of_getElem? hm))
    rwa [List.length_take_of_le (Nat.le_of_lt hi)] at hread

/-- A member with the same white space in front of its number and of its object. -/
def memberBehind (gap : Bytes) (white : ∀ b ∈ gap, Byte.isWhite b = true) (number : Nat)
    (value : Object) (number_le : number ≤ Decimal.maxSigned64) (printable : value.Printable) :
    Member :=
  ⟨number, value, gap, [0x20], gap, number_le, printable, white, Byte.space_white, white,
    Byte.space_ne_nil⟩

/-- An integer in front of a reference, and an integer behind it. The first two members have the
    same number. -/
def sample : Packed Object.plainStyle where
  members :=
    [memberBehind [] Byte.nil_white 11 (.integer 1) (by decide) (.integer (by decide)),
      memberBehind [0x20] Byte.space_white 11 (.reference ⟨2, 0⟩) (by decide)
        (.reference (by decide) (by decide)),
      memberBehind [0x20] Byte.space_white 12 (.integer 0) (by decide) (.integer (by decide))]
  pad := [0x0A]
  behind := []
  numberGap_ne_nil := List.forall_mem_cons.mpr
    ⟨List.cons_ne_nil _ _, List.forall_mem_singleton.mpr (List.cons_ne_nil _ _)⟩
  gap_ne_nil := List.forall_mem_cons.mpr
    ⟨List.cons_ne_nil _ _, List.forall_mem_singleton.mpr (List.cons_ne_nil _ _)⟩
  pad_white := Byte.feed_white
  behind_white := Byte.nil_white
  stops := Bytes.stops_cons.mpr (by decide)

def sampleEntries : Dict Object := ⟨[("N", .integer 3), ("First", .integer 15)]⟩

/-- The reference does not take the integer in front of it for its number. -/
theorem sample_read : ∃ s, ofStream Options.strict.toTolerance sampleEntries
      (ascii "11 0 11 2 12 8\n1 2 0 R 0") = .ok s ∧ s.numbers = [11, 11, 12] ∧
    s.object Options.strict.toTolerance 0 = .ok (.integer 1) ∧
    s.object Options.strict.toTolerance 1 = .ok (.reference ⟨2, 0⟩) ∧
    s.object Options.strict.toTolerance 2 = .ok (.integer 0) := by
  have hdata : sample.data = ascii "11 0 11 2 12 8\n1 2 0 R 0" := by decide +kernel
  have hheader : sample.header.length = 15 := by decide +kernel
  have hstored : Filter.decodeStream sampleEntries (ascii "11 0 11 2 12 8\n1 2 0 R 0") =
      .ok sample.data := by
    rw [hdata]
    rfl
  have hcount : sampleEntries.get? "N" = some (.integer sample.members.length) := by
    simp [sampleEntries, Dict.get?, Dict.lookup, sample]
  have hfirst : sampleEntries.get? "First" = some (.integer sample.header.length) := by
    rw [hheader]
    rfl
  have hdepth : ∀ m ∈ sample.members, m.value.depth ≤ Options.strict.maxNesting :=
    List.forall_mem_cons.mpr ⟨Nat.zero_le _, List.forall_mem_cons.mpr
      ⟨Nat.zero_le _, List.forall_mem_singleton.mpr (Nat.zero_le _)⟩⟩
  obtain ⟨s, hopen, hnumbers, hobjects⟩ := sample.members_read Options.strict.toTolerance hstored
    hcount hfirst (by decide +kernel) hdepth
  exact ⟨s, hopen, hnumbers, hobjects 0 _ rfl, hobjects 1 _ rfl, hobjects 2 _ rfl⟩

end Packed

end ObjectStream

end CrossReference
