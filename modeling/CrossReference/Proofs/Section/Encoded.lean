import CrossReference.Proofs.Section.Records
import CrossReference.Proofs.Table.Entries
import Mathlib.Algebra.Group.Int.Defs

set_option autoImplicit false

/-! # Encoded cross-reference streams

What an encoder builds describes itself, as far as the numbers of a dictionary go: the layout in its
dictionary is that of its records (`ofDict_stream`), and with this layout its records are read back
(`decodeEntries_layout`). The one number that may not fit is the size. If it is no word, nothing is
built (`exists_build_iff`). Numbers of a dictionary are signed, so a size from 2^63 on turns
negative, and then no layout is found (`ofDict_stream_large`); a smaller number that is wrong is
never written. -/

namespace CrossReference

/-! ## Signed words -/

namespace Decimal

theorem toSigned64_of_le {n : Nat} (h : n ≤ maxSigned64) : toSigned64 n = n := by
  unfold maxSigned64 at h
  unfold toSigned64 word64Count
  exact Int.bmod_eq_of_le (by omega) (by omega)

theorem toSigned64_neg {n : Nat} (h : maxSigned64 < n) (hword : n ≤ maxWord64) :
    toSigned64 n < 0 := by
  unfold maxSigned64 at h
  unfold maxWord64 at hword
  unfold toSigned64 word64Count Int.bmod
  dsimp only
  split <;> omega

/-- The signed number has the pattern of the unsigned one. -/
theorem toSigned64_emod (n : Nat) : toSigned64 n % word64Count = n % word64Count :=
  Int.bmod_emod

end Decimal

/-- Whether the numbers of an entry are words of the sizes that the entries of a table have. -/
def Entry.FitsWords : Entry → Prop
  | free next => next ≤ Decimal.maxWord64
  | direct offset => offset ≤ Decimal.maxWord64
  | compressed stream index => stream ≤ Decimal.maxWord64 ∧ index ≤ Decimal.maxWord32

instance : (e : Entry) → Decidable e.FitsWords
  | .free _ => inferInstanceAs (Decidable (_ ≤ _))
  | .direct _ => inferInstanceAs (Decidable (_ ≤ _))
  | .compressed _ _ => inferInstanceAs (Decidable (_ ∧ _))

namespace Encoder

/-! ## The layout -/

theorem nat?_integer {n : Nat} (h : n ≤ Decimal.maxSigned64) : (integer n).nat? = some n := by
  unfold integer
  rw [Decimal.toSigned64_of_le h]
  rfl

variable (x : Encoder) (deflate : Bytes → Bytes) (size : Nat)

/-- The layout of the records. -/
def layout : Layout :=
  { widths := x.widths
    index := ranges x.numbers
    size := size }

theorem get?_stream {n : Name} (hfilter : n ≠ "Filter") (hlength : n ≠ "Length") :
    (x.stream deflate size).1.get? n = (x.describe size).get? n := by
  unfold stream
  dsimp only
  split
  · rw [Dict.get?_insert, if_neg hlength, Dict.get?_insert, if_neg hfilter]
  · rw [Dict.get?_insert, if_neg hlength]

theorem get?_size_stream :
    (x.stream deflate size).1.get? "Size" = some (integer size) := by
  rw [get?_stream x deflate size (by decide) (by decide), describe, Dict.get?_insert, if_pos rfl]

theorem get?_index_stream :
    (x.stream deflate size).1.get? "Index" = some (.array x.index) := by
  rw [get?_stream x deflate size (by decide) (by decide), describe, Dict.get?_insert,
    if_neg (by decide), Dict.get?_insert, if_pos rfl]

theorem get?_widths_stream :
    (x.stream deflate size).1.get? "W" =
      some (.array [integer x.widths.kind, integer x.widths.second, integer x.widths.third]) := by
  rw [get?_stream x deflate size (by decide) (by decide), describe, Dict.get?_insert,
    if_neg (by decide), Dict.get?_insert, if_neg (by decide), Dict.get?_insert, if_pos rfl]

theorem get?_length_stream :
    (x.stream deflate size).1.get? "Length" =
      some (integer (x.stream deflate size).2.length) := by
  unfold stream
  dsimp only
  split <;> rw [Dict.get?_insert, if_pos rfl]

/-! ### Widths -/

variable {x} {deflate} {size}

/-- All records of an encoder can be written. -/
def AllStorable (x : Encoder) : Prop := ∀ r ∈ x.records.entries, Storable r

theorem mem_fields {r : Record} (h : r ∈ x.records.entries) : fieldsAt r ∈ x.fields :=
  List.mem_map_of_mem h

/-- The fields are wide enough for every record. -/
theorem legible_widths {r : Record} (h : r ∈ x.records.entries) (storable : Storable r) :
    Legible x.widths r where
  kind hzero := absurd hzero Nat.one_ne_zero
  second_lt := Bytes.lt_pow_of_width_le (width_le_widthFor (List.mem_map_of_mem (mem_fields h)))
  third_lt := Bytes.lt_pow_of_width_le (width_le_widthFor (List.mem_map_of_mem (mem_fields h)))
  third_le := storable.third_le
  generation := storable.generation

/-- A width is never greater than the greatest width that is read. -/
theorem widthFor_fields_le (get : Fields → Nat)
    (h : ∀ r ∈ x.records.entries, get (fieldsAt r) ≤ Decimal.maxWord64) :
    widthFor (x.fields.map get) ≤ FieldWidths.max := by
  refine widthFor_le fun v hv => ?_
  obtain ⟨f, hf, rfl⟩ := List.mem_map.mp hv
  obtain ⟨r, hr, rfl⟩ := List.mem_map.mp hf
  exact Nat.lt_of_le_of_lt (h r hr) (by decide +kernel)

theorem widthOf_of_nat? {value : Object} {n : Nat} (h : value.nat? = some n)
    (hle : n ≤ FieldWidths.max) : Layout.widthOf value = .ok n := by
  unfold Layout.widthOf
  rw [h]
  exact if_pos hle

theorem widthOf_integer {n : Nat} (h : n ≤ FieldWidths.max) :
    Layout.widthOf (integer n) = .ok n :=
  widthOf_of_nat? (nat?_integer (Nat.le_trans h (by decide))) h

theorem widthsOf_stream (storable : AllStorable x) :
    Layout.widthsOf (x.stream deflate size).1 = .ok x.widths := by
  have hsecond : x.widths.second ≤ FieldWidths.max :=
    widthFor_fields_le _ fun r hr => (storable r hr).second_le
  have hthird : x.widths.third ≤ FieldWidths.max :=
    widthFor_fields_le _ fun r hr => Nat.le_trans (storable r hr).third_le (by decide)
  unfold Layout.widthsOf
  rw [get?_widths_stream]
  change (do
    return ⟨← Layout.widthOf (integer x.widths.kind), ← Layout.widthOf (integer x.widths.second),
      ← Layout.widthOf (integer x.widths.third)⟩ : Except Error FieldWidths) = _
  have hkind : x.widths.kind ≤ FieldWidths.max := show 1 ≤ 8 by decide
  rw [widthOf_integer hkind, widthOf_integer hsecond, widthOf_integer hthird]
  rfl

/-! ### Index -/

theorem rangesOf_integers {index : List (Nat × Nat)}
    (h : ∀ r ∈ index, r.1 ≤ Decimal.maxSigned64 ∧ r.2 ≤ Decimal.maxSigned64) :
    Layout.rangesOf (index.flatMap fun r => [integer r.1, integer r.2]) = .ok index := by
  induction index with
  | nil => rfl
  | cons r rest ih =>
    obtain ⟨hstart, hcount⟩ := h r List.mem_cons_self
    have hrest := ih fun r hr => h r (List.mem_cons_of_mem _ hr)
    rw [List.flatMap_cons, List.cons_append, List.cons_append, List.nil_append, Layout.rangesOf,
      nat?_integer hstart, nat?_integer hcount, hrest]
    rfl

theorem length_integers (index : List (Nat × Nat)) :
    (index.flatMap fun r => [integer r.1, integer r.2]).length = 2 * index.length := by
  induction index with
  | nil => rfl
  | cons r rest ih =>
    simp only [List.flatMap_cons, List.length_append, ih, List.length_cons, List.length_nil]
    omega

/-- The index is read back if every number and the one behind it are numbers of a dictionary. -/
theorem indexOf_stream (hnumbers : ∀ n ∈ x.numbers, n < Decimal.maxSigned64) :
    Layout.indexOf (x.stream deflate size).1 size = .ok (ranges x.numbers) := by
  have hfits : ∀ r ∈ ranges x.numbers,
      r.1 ≤ Decimal.maxSigned64 ∧ r.2 ≤ Decimal.maxSigned64 := by
    intro r hr
    obtain ⟨hpos, hmem⟩ := last_mem_of_mem_ranges hr
    have hlast := hnumbers _ hmem
    omega
  unfold Layout.indexOf
  rw [get?_index_stream]
  dsimp only
  rw [index, if_pos (by rw [length_integers]; omega), rangesOf_integers hfits]

/-! ### Size -/

/-- The last number is the highest one. -/
theorem le_getLast_of_mem {numbers : List Nat} (hascending : numbers.Pairwise (· < ·)) {n : Nat}
    (h : n ∈ numbers) : ∃ last, numbers.getLast? = some last ∧ n ≤ last := by
  obtain ⟨front, last, rfl⟩ : ∃ front last, numbers = front ++ [last] :=
    ⟨_, _, (List.dropLast_concat_getLast (List.ne_nil_of_mem h)).symm⟩
  refine ⟨last, List.getLast?_concat, ?_⟩
  rcases List.mem_append.mp h with hfront | hlast
  · exact Nat.le_of_lt ((List.pairwise_append.mp hascending).2.2 n hfront last List.mem_cons_self)
  · exact Nat.le_of_eq (List.mem_singleton.mp hlast)

theorem ascending_numbers (x : Encoder) : x.numbers.Pairwise (· < ·) :=
  List.pairwise_map.mpr x.records.ascending

theorem lt_maxWord64 (storable : AllStorable x) {n : Nat} (h : n ∈ x.numbers) :
    n < Decimal.maxWord64 := by
  obtain ⟨r, hr, rfl⟩ := List.mem_map.mp h
  exact (storable r hr).number_lt

/-- The size is one more than the highest number, if there are numbers and if that is a word. -/
theorem size_cases (x : Encoder) :
    x.numbers = [] ∧ x.size = some 0 ∨
      ∃ n ∈ x.numbers, (∀ m ∈ x.numbers, m ≤ n) ∧ x.size = Word.ofNat (n + 1) := by
  cases hlast : x.numbers.getLast? with
  | none => exact Or.inl ⟨List.getLast?_eq_none_iff.mp hlast, by rw [Encoder.size, hlast]⟩
  | some last =>
    refine Or.inr ⟨last, List.mem_of_getLast? hlast, fun m hm => ?_, ?_⟩
    · obtain ⟨n, hn, hle⟩ := le_getLast_of_mem (ascending_numbers x) hm
      rwa [Option.some.inj (hlast.symm.trans hn)]
    · rw [Encoder.size, hlast]
      rfl

/-- There is a size just if each number has a word behind it. -/
theorem exists_size_iff :
    (∃ size, x.size = some size) ↔ ∀ n ∈ x.numbers, n < Decimal.maxWord64 := by
  rcases size_cases x with ⟨hnil, hsize⟩ | ⟨n, hn, highest, hsize⟩
  · rw [hnil, hsize]
    exact ⟨fun _ => List.forall_mem_nil _, fun _ => ⟨0, rfl⟩⟩
  · rw [hsize]
    constructor
    · rintro ⟨size, h⟩ m hm
      exact Nat.lt_of_le_of_lt (highest m hm) (Word.ofNat_eq_some.mp h).2
    · exact fun h => ⟨n + 1, if_pos (h n hn)⟩

theorem lt_size (h : x.size = some size) {n : Nat} (hn : n ∈ x.numbers) :
    n < size ∧ size ≤ Decimal.maxWord64 := by
  rcases size_cases x with ⟨hnil, _⟩ | ⟨last, _, highest, hsize⟩
  · rw [hnil] at hn
    cases hn
  · obtain ⟨rfl, hword⟩ := Word.ofNat_eq_some.mp (hsize.symm.trans h)
    exact ⟨Nat.lt_succ_of_le (highest n hn), hword⟩

theorem buildWith_eq_some {built : Dict Object × Bytes} :
    x.buildWith deflate = some built ↔ ∃ size, x.size = some size ∧ x.stream deflate size = built :=
  Option.map_eq_some_iff

/-- A stream is built just if each object number has a word behind it. -/
theorem exists_build_iff :
    (∃ built, x.buildWith deflate = some built) ↔ ∀ n ∈ x.numbers, n < Decimal.maxWord64 := by
  rw [← exists_size_iff]
  constructor
  · rintro ⟨built, h⟩
    obtain ⟨size, hsize, _⟩ := buildWith_eq_some.mp h
    exact ⟨size, hsize⟩
  · rintro ⟨size, hsize⟩
    exact ⟨_, buildWith_eq_some.mpr ⟨size, hsize, rfl⟩⟩

/-! ### The whole layout -/

/-- The layout in the dictionary is that of the records. -/
theorem ofDict_stream (storable : AllStorable x)
    (hnumbers : ∀ n ∈ x.numbers, n < Decimal.maxSigned64) (hx : x.size = some size) :
    Layout.ofDict (x.stream deflate size).1 = .ok (x.layout size) := by
  have hfits : size ≤ Decimal.maxSigned64 := by
    rcases size_cases x with ⟨_, hsize⟩ | ⟨last, hlast, _, hsize⟩
    · obtain rfl := Option.some.inj (hsize.symm.trans hx)
      exact Nat.zero_le _
    · obtain ⟨rfl, _⟩ := Word.ofNat_eq_some.mp (hsize.symm.trans hx)
      exact hnumbers last hlast
  have hsize : Layout.sizeOf (x.stream deflate size).1 = .ok size := by
    unfold Layout.sizeOf
    rw [get?_size_stream, integer, Decimal.toSigned64_of_le hfits]
    rfl
  unfold Layout.ofDict
  rw [hsize, widthsOf_stream storable]
  change (do return ⟨x.widths, ← Layout.indexOf (x.stream deflate size).1 size, size⟩ :
    Except Error Layout) = _
  rw [indexOf_stream hnumbers]
  rfl

variable (deflate) in
/-- With a number so high that the size is too great, there is none. -/
theorem ofDict_stream_large {n : Nat} (h : n ∈ x.numbers) (hlarge : Decimal.maxSigned64 ≤ n)
    (hx : x.size = some size) :
    ∃ found, Layout.ofDict (x.stream deflate size).1 = .error (.badStream (.negativeSize found)) := by
  obtain ⟨hlt, hword⟩ := lt_size hx h
  have hneg := Decimal.toSigned64_neg (Nat.lt_of_le_of_lt hlarge hlt) hword
  obtain ⟨m, hm⟩ := Int.eq_negSucc_of_lt_zero hneg
  refine ⟨Int.negSucc m, ?_⟩
  have hsize : Layout.sizeOf (x.stream deflate size).1 =
      .error (.badStream (.negativeSize (Int.negSucc m))) := by
    unfold Layout.sizeOf
    rw [get?_size_stream, integer, hm]
    rfl
  unfold Layout.ofDict
  rw [hsize]
  rfl

/-! ## The records -/

theorem recordBytes_eq (x : Encoder) : x.recordBytes = written x.widths x.records.entries :=
  List.flatMap_map ..

/-- The records are read back with their layout. -/
theorem decodeEntries_layout (storable : AllStorable x)
    (hlength : x.recordBytes.length ≤ Decimal.maxWord64) (size : Nat) :
    Layout.decodeEntries (x.layout size) x.recordBytes = .ok (x.records.entries.map listed) := by
  have htotal : (x.layout size).widths.total ≠ 0 := by
    change 1 + x.widths.second + x.widths.third ≠ 0
    omega
  have hnumbers : x.records.entries.map (·.1) = numbersOf (x.layout size).index :=
    (numbersOf_ranges x.numbers).symm
  rw [recordBytes_eq] at hlength ⊢
  rw [← List.append_nil (written _ _)]
  exact decodeEntries_written htotal hnumbers (fun r hr => legible_widths hr (storable r hr))
    (fun r hr => Nat.le_of_lt (storable r hr).number_lt) hlength []

/-! ## Collected entries -/

/-- An encoder without entries that writes its records as they are, and nothing of its own into the
    dictionary. -/
def plain : Encoder := { compress := false }

/-- Adds entries one after the other. -/
def addEntries (x : Encoder) (calls : List (Key × Entry)) : Encoder :=
  calls.foldl (fun x c => x.addEntry c.1 c.2) x

/-- The last one of several entries for an object number, with the key that it was added with. -/
def lastFor? (calls : List (Key × Entry)) (number : Nat) : Option (Key × Entry) :=
  calls.reverse.find? fun c => c.1.number = number

/-- What is kept of an entry and its key: a compressed object has the generation zero. -/
def kept (c : Key × Entry) : Nat × Entry :=
  match c.2 with
  | .compressed stream index => (0, .compressed stream index)
  | e => (c.1.generation, e)

/-- The entries of an encoder with their keys. -/
def stored (x : Encoder) : List (Key × Entry) := x.records.entries.map listed

theorem addEntry_eq (x : Encoder) (c : Key × Entry) :
    x.addEntry c.1 c.2 = { x with records := x.records.insert c.1.number (kept c) } := by
  obtain ⟨k, e⟩ := c
  cases e <;> rfl

theorem lastFor?_cons (c : Key × Entry) (rest : List (Key × Entry)) (number : Nat) :
    lastFor? (c :: rest) number =
      (lastFor? rest number).or (if c.1.number = number then some c else none) := by
  unfold lastFor?
  rw [List.reverse_cons, List.find?_append, List.find?_singleton]
  simp only [decide_eq_true_eq]

/-- A later entry for a number takes the place of an earlier one. -/
theorem get?_addEntries (calls : List (Key × Entry)) (x : Encoder) (number : Nat) :
    (x.addEntries calls).records.get? number =
      ((lastFor? calls number).map kept).or (x.records.get? number) := by
  induction calls generalizing x with
  | nil => rfl
  | cons c rest ih =>
    have hstep : x.addEntries (c :: rest) = (x.addEntry c.1 c.2).addEntries rest := rfl
    rw [hstep, ih, addEntry_eq, OrderedMap.get?_insert, lastFor?_cons]
    cases lastFor? rest number with
    | some last => rfl
    | none =>
      by_cases hc : c.1.number = number
      · rw [if_pos hc, if_pos hc.symm]
        rfl
      · rw [if_neg hc, if_neg (Ne.symm hc)]
        rfl

theorem compress_addEntries (calls : List (Key × Entry)) (x : Encoder) :
    (x.addEntries calls).compress = x.compress := by
  induction calls generalizing x with
  | nil => rfl
  | cons c rest ih => exact (ih (x.addEntry c.1 c.2)).trans (by rw [addEntry_eq])

theorem mem_entries_plain {calls : List (Key × Entry)} {r : Record} :
    r ∈ (plain.addEntries calls).records.entries ↔
      ∃ c, lastFor? calls r.1 = some c ∧ kept c = r.2 := by
  have hempty : plain.records.get? r.1 = none := rfl
  rw [← OrderedMap.lookup_eq_some_iff (plain.addEntries calls).records.ascending]
  change (plain.addEntries calls).records.get? r.1 = some r.2 ↔ _
  rw [get?_addEntries, hempty, Option.or_none, Option.map_eq_some_iff]

theorem mem_of_lastFor? {calls : List (Key × Entry)} {number : Nat} {c : Key × Entry}
    (h : lastFor? calls number = some c) : c ∈ calls ∧ c.1.number = number := by
  unfold lastFor? at h
  have hnumber := List.find?_some h
  exact ⟨List.mem_reverse.mp (List.mem_of_find?_eq_some h), of_decide_eq_true hnumber⟩

theorem mem_numbers_plain {calls : List (Key × Entry)} {number : Nat} :
    number ∈ (plain.addEntries calls).numbers ↔ ∃ c ∈ calls, c.1.number = number := by
  constructor
  · intro h
    obtain ⟨r, hr, rfl⟩ := List.mem_map.mp h
    obtain ⟨c, hc, _⟩ := mem_entries_plain.mp hr
    exact ⟨c, mem_of_lastFor? hc⟩
  · rintro ⟨c, hc, rfl⟩
    obtain ⟨last, hlast⟩ : ∃ last, lastFor? calls c.1.number = some last := by
      refine Option.isSome_iff_exists.mp (List.find?_isSome.mpr ⟨c, List.mem_reverse.mpr hc, ?_⟩)
      exact decide_eq_true rfl
    exact List.mem_map.mpr ⟨(c.1.number, kept last), mem_entries_plain.mpr ⟨last, hlast, rfl⟩, rfl⟩

/-- An entry and its key that can be added to an encoder: their numbers are words, and the object
    number is not the greatest word. -/
structure Writable (c : Key × Entry) : Prop where
  number_lt : c.1.number < Decimal.maxWord64
  generation_le : c.1.generation ≤ Decimal.maxWord32
  entry : c.2.FitsWords

instance (c : Key × Entry) : Decidable (Writable c) :=
  decidable_of_iff
    (c.1.number < Decimal.maxWord64 ∧ c.1.generation ≤ Decimal.maxWord32 ∧ c.2.FitsWords)
    ⟨fun h => ⟨h.1, h.2.1, h.2.2⟩, fun h => ⟨h.number_lt, h.generation_le, h.entry⟩⟩

theorem Writable.storable {c : Key × Entry} (writable : Writable c) :
    Storable (c.1.number, kept c) := by
  obtain ⟨k, e⟩ := c
  obtain ⟨hnumber, hgeneration, hentry⟩ := writable
  cases e with
  | free next => exact ⟨hnumber, hentry, hgeneration, nofun⟩
  | direct offset => exact ⟨hnumber, hentry, hgeneration, nofun⟩
  | compressed stream index => exact ⟨hnumber, hentry.1, hentry.2, fun _ _ _ => rfl⟩

theorem allStorable_plain {calls : List (Key × Entry)} (writable : ∀ c ∈ calls, Writable c) :
    AllStorable (plain.addEntries calls) := by
  intro r hr
  obtain ⟨c, hc, hkept⟩ := mem_entries_plain.mp hr
  obtain ⟨hmem, hnumber⟩ := mem_of_lastFor? hc
  have hstorable := (writable c hmem).storable
  rwa [hkept, hnumber] at hstorable

theorem mem_stored_plain {calls : List (Key × Entry)} {k : Key} {e : Entry} :
    (k, e) ∈ (plain.addEntries calls).stored ↔
      ∃ c, lastFor? calls k.number = some c ∧ kept c = (k.generation, e) := by
  refine Iff.trans ⟨fun h => ?_, fun h => List.mem_map.mpr ⟨_, h, rfl⟩⟩
    (mem_entries_plain (r := (k.number, k.generation, e)))
  obtain ⟨r, hr, hkey⟩ := List.mem_map.mp h
  cases hkey
  exact hr

/-- A layout is found just if the size is a number of a dictionary. -/
theorem ofDict_plain_iff {calls : List (Key × Entry)} (writable : ∀ c ∈ calls, Writable c)
    (hx : (plain.addEntries calls).size = some size) {l : Layout} :
    Layout.ofDict ((plain.addEntries calls).stream deflate size).1 = .ok l ↔
      (∀ c ∈ calls, c.1.number ≤ 2 ^ 63 - 2) ∧ (plain.addEntries calls).layout size = l := by
  have storable := allStorable_plain writable
  by_cases hsmall : ∀ c ∈ calls, c.1.number ≤ 2 ^ 63 - 2
  · have hnumbers : ∀ n ∈ (plain.addEntries calls).numbers, n < Decimal.maxSigned64 := by
      intro n hn
      obtain ⟨c, hc, rfl⟩ := mem_numbers_plain.mp hn
      have hle := hsmall c hc
      unfold Decimal.maxSigned64
      omega
    rw [ofDict_stream storable hnumbers hx, Except.ok.injEq, and_iff_right hsmall]
  · obtain ⟨c, hc, hlarge⟩ : ∃ c ∈ calls, Decimal.maxSigned64 ≤ c.1.number := by
      refine Classical.byContradiction fun hnone => hsmall fun c hc => ?_
      have hlt : c.1.number < Decimal.maxSigned64 := Nat.not_le.mp fun h => hnone ⟨c, hc, h⟩
      unfold Decimal.maxSigned64 at hlt
      omega
    obtain ⟨found, herror⟩ :=
      ofDict_stream_large deflate (mem_numbers_plain.mpr ⟨c, hc, rfl⟩) hlarge hx
    rw [herror]
    exact ⟨nofun, fun h => absurd h.1 hsmall⟩

theorem data_plain (calls : List (Key × Entry)) :
    ((plain.addEntries calls).stream deflate size).2 = (plain.addEntries calls).recordBytes := by
  unfold stream
  rw [compress_addEntries, plain]
  rfl

/-- What an encoder stores comes back or is refused. Entries are added one after the other, and
    written without compression. A stream is built. The length in its dictionary is that of its data
    (as a pattern of 64 bits, and as a number for all data that a signed length can count), a layout
    is read from the dictionary just if the highest object number leaves a size that is not
    negative, and with it the data gives the stored entries. These are the last ones for each
    number, in ascending order. -/
theorem build_round_trips {calls : List (Key × Entry)} (writable : ∀ c ∈ calls, Writable c) :
    let x := plain.addEntries calls
    ∃ entries data, x.build = some (entries, data) ∧ (data.length ≤ Decimal.maxWord64 →
      (∃ i : Int, entries.get? "Length" = some (.integer i) ∧ i % 2 ^ 64 = data.length ∧
        (data.length ≤ Decimal.maxSigned64 → i = data.length)) ∧
      ((∃ l, Layout.ofDict entries = .ok l) ↔ ∀ c ∈ calls, c.1.number ≤ 2 ^ 63 - 2) ∧
      (∀ l, Layout.ofDict entries = .ok l → Layout.decodeEntries l data = .ok x.stored) ∧
      x.stored.Pairwise (fun a b => a.1.number < b.1.number) ∧
      ∀ k e, (k, e) ∈ x.stored ↔
        ∃ c, lastFor? calls k.number = some c ∧ kept c = (k.generation, e)) := by
  intro x
  have hnumbers : ∀ n ∈ x.numbers, n < Decimal.maxWord64 :=
    fun n hn => lt_maxWord64 (allStorable_plain writable) hn
  obtain ⟨size, hsize⟩ := exists_size_iff.mpr hnumbers
  have hdata : (x.stream Filter.encodeFlate size).2 = x.recordBytes := data_plain calls
  refine ⟨(x.stream Filter.encodeFlate size).1, (x.stream Filter.encodeFlate size).2,
    buildWith_eq_some.mpr ⟨size, hsize, rfl⟩, fun fits => ?_⟩
  refine ⟨⟨_, get?_length_stream x _ size, ?_, Decimal.toSigned64_of_le⟩, ⟨?_, ?_⟩, ?_, ?_, ?_⟩
  · have hpattern := Decimal.toSigned64_emod (x.stream Filter.encodeFlate size).2.length
    unfold Decimal.word64Count at hpattern
    unfold Decimal.maxWord64 at fits
    omega
  · rintro ⟨l, hl⟩
    exact ((ofDict_plain_iff writable hsize).mp hl).1
  · exact fun hsmall => ⟨_, (ofDict_plain_iff writable hsize).mpr ⟨hsmall, rfl⟩⟩
  · intro l hl
    obtain ⟨-, rfl⟩ := (ofDict_plain_iff writable hsize).mp hl
    rw [hdata] at fits ⊢
    exact decodeEntries_layout (allStorable_plain writable) fits size
  · exact List.pairwise_map.mpr x.records.ascending
  · exact fun k e => mem_stored_plain

/-- Entries for three objects, one of which is added twice. -/
def mixedEntries : List (Key × Entry) :=
  [(⟨5, 0⟩, .free 0), (⟨3, 1⟩, .direct 300), (⟨4, 7⟩, .compressed 9 2), (⟨5, 2⟩, .direct 7)]

theorem mixedEntries_round_trip :
    ∃ entries data l, (plain.addEntries mixedEntries).build = some (entries, data) ∧
      Layout.ofDict entries = .ok l ∧
      Layout.decodeEntries l data =
        .ok [(⟨3, 1⟩, .direct 300), (⟨4, 0⟩, .compressed 9 2), (⟨5, 2⟩, .direct 7)] := by
  have writable : ∀ c ∈ mixedEntries, Writable c := by decide
  obtain ⟨entries, data, hbuild, round⟩ := build_round_trips writable
  have fits : data.length ≤ Decimal.maxWord64 := by
    obtain ⟨size, _, hstream⟩ := buildWith_eq_some.mp hbuild
    have hdata : data = (plain.addEntries mixedEntries).recordBytes :=
      (congrArg Prod.snd hstream).symm.trans (data_plain mixedEntries)
    rw [hdata]
    decide
  obtain ⟨_, accepts, decodes, _⟩ := round fits
  obtain ⟨l, hl⟩ := accepts.mpr (by decide)
  exact ⟨entries, data, l, hbuild, hl, decodes l hl⟩

end Encoder

end CrossReference
