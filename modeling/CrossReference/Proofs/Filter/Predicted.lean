import CrossReference.Filter.Predictor
import Mathlib.Algebra.Order.Floor.Div
import Mathlib.Data.List.MinMax

set_option autoImplicit false

/-! # Predicted data

What an encoder with a predictor writes, the decoder reads back (`decode_predicted`). The encoder
has the whole row in front of it, so it is written here by places in the row: each byte becomes its
difference from what its filter expects. The decoder only has what it decoded so far. While it works
on a row, it carries along the bytes of the last pixel, and these are the ones that the encoder
looked at (`decodeRow_from`); every other law comes from this one. -/

namespace CrossReference.Predictor

/-! ## Filters of rows -/

/-- The filters that a tagged row may go through. -/
inductive RowFilter where
  | none
  | sub
  | up
  | average
  | paeth
deriving DecidableEq, Repr

namespace RowFilter

/-- The tag of a row. -/
def tag : RowFilter → UInt8
  | none => 0
  | sub => 1
  | up => 2
  | average => 3
  | paeth => 4

/-- What a filter expects a byte to be, from the bytes to the left, above, and above to the left.
    The last filter takes the first of them that comes nearest to `left + above - corner`. -/
def expected : RowFilter → Guess
  | .none, _, _, _ => 0
  | .sub, left, _, _ => left
  | .up, _, above, _ => above
  | .average, left, above, _ => UInt8.ofNat ((left.toNat + above.toNat) / 2)
  | .paeth, left, above, corner =>
    ([left, above, corner].argmin fun b =>
      ((left.toNat + above.toNat - corner.toNat : Int) - b.toNat).natAbs).getD 0

end RowFilter

/-- The first of three bytes at which a measure is least. -/
theorem argmin_three (f : UInt8 → Nat) (a b c : UInt8) :
    [a, b, c].argmin f =
      some (if f a ≤ f b && f a ≤ f c then a else if f b ≤ f c then b else c) := by
  simp only [List.argmin_cons, List.argmin_nil]
  by_cases hbc : f b ≤ f c
  · by_cases hab : f a ≤ f b
    · have hac : f a ≤ f c := Nat.le_trans hab hbc
      simp [hbc, hab, hac, Nat.not_lt.mpr]
    · simp [hbc, hab, Nat.not_lt.mpr, Nat.lt_of_not_le]
  · by_cases hac : f a ≤ f c
    · have hab : f a ≤ f b := by omega
      simp [hbc, hab, hac, Nat.not_lt.mpr, Nat.lt_of_not_le]
    · simp [hbc, hac, Nat.lt_of_not_le]

/-- The tag of a filter stands for its guesses. -/
theorem guess?_tag (f : RowFilter) : guess? f.tag = some f.expected := by
  cases f with
  | paeth =>
    have hpaeth : paeth = RowFilter.paeth.expected := by
      funext left up corner
      rw [RowFilter.expected, argmin_three]
      rfl
    exact congrArg some hpaeth
  | _ => rfl

/-! ## Encoding -/

/-- The byte one pixel in front of a place in a row; zero if there is none. -/
def leftOf (pixel : Nat) (row : Bytes) (i : Nat) : UInt8 :=
  if i < pixel then 0 else row.getD (i - pixel) 0

/-- Takes the expected bytes from those of a row, under a row above it. -/
def encodeRow (guess : Guess) (pixel : Nat) (above row : Bytes) : Bytes :=
  row.mapIdx fun i b => b - guess (leftOf pixel row i) (above.getD i 0) (leftOf pixel above i)

/-- Encodes rows, each with a filter of its own, under a row above them. -/
def encodeTagged (pixel : Nat) : (above : Bytes) → List (RowFilter × Bytes) → Bytes
  | _, [] => []
  | above, (f, row) :: rest =>
    f.tag :: encodeRow f.expected pixel above row ++ encodeTagged pixel row rest

/-- Encodes data in rows without tags, of which the last one may be short: every byte but those of
    the first pixel of a row becomes its difference from the byte one pixel in front of it. -/
def encodeHorizontal (pixel width : Nat) (data : Bytes) : Bytes :=
  data.mapIdx fun i b => b - if i % width < pixel then 0 else data.getD (i - pixel) 0

@[simp] theorem length_encodeRow (guess : Guess) (pixel : Nat) (above row : Bytes) :
    (encodeRow guess pixel above row).length = row.length := List.length_mapIdx

/-! ## One row -/

variable {pixel : Nat}

theorem headD_drop (xs : Bytes) (n : Nat) : (xs.drop n).headD 0 = xs.getD n 0 := by
  simp [List.headD_eq_head?_getD, List.getD_eq_getElem?_getD]

/-- The byte in front by a pixel stands at the same place behind as many zeros. -/
theorem getD_zeros_append (xs : Bytes) (n : Nat) :
    (zeros pixel ++ xs).getD n 0 = leftOf pixel xs n := by
  unfold leftOf zeros
  split
  · rename_i h
    simp [List.getD_eq_getElem?_getD, List.getElem?_append, h]
  · rename_i h
    simp [List.getD_eq_getElem?_getD, List.getElem?_append, h]

/-- The byte in front by a pixel is the same in whatever goes on behind it. -/
theorem leftOf_append {done : Bytes} (hpixel : 0 < pixel) (more : Bytes) :
    leftOf pixel (done ++ more) done.length = leftOf pixel done done.length := by
  unfold leftOf
  split
  · rfl
  · have hlt : done.length - pixel < done.length := by omega
    simp [List.getD_eq_getElem?_getD, List.getElem?_append_left hlt]

/-- A row is decoded from any place on. The decoder has the bytes in front of the place, those of
    the last pixel at hand. -/
theorem decodeRow_from (hpixel : 0 < pixel) (guess : Guess) (above done row : Bytes) :
    decodeRow guess ((zeros pixel ++ done).drop done.length)
      (row.mapIdx fun i b => b - guess (leftOf pixel (done ++ row) (done.length + i))
        (above.getD (done.length + i) 0) (leftOf pixel above (done.length + i)))
      (above.drop done.length) ((zeros pixel ++ above).drop done.length) = row := by
  induction row generalizing done with
  | nil => rfl
  | cons b row ih =>
    have hlast : (zeros pixel ++ done).drop (done.length + 1) ++ [b] =
        (zeros pixel ++ (done ++ [b])).drop (done.length + 1) := by
      have hle : done.length + 1 ≤ (zeros pixel ++ done).length := by
        simp [zeros]
        omega
      rw [← List.append_assoc, List.drop_append_of_le_length hle]
    have hrest := ih (done ++ [b])
    simp only [List.length_append, List.length_singleton, List.append_assoc, List.singleton_append,
      Nat.add_assoc, Nat.add_comm 1] at hrest
    rw [List.mapIdx_cons, decodeRow]
    simp only [headD_drop, getD_zeros_append, Nat.add_zero, leftOf_append hpixel,
      UInt8.sub_add_cancel, List.drop_drop, hlast, hrest]

/-- A row is decoded under the row above it. -/
theorem decodeRow_encodeRow (hpixel : 0 < pixel) (guess : Guess) (above row : Bytes) :
    decodeRow guess (zeros pixel) (encodeRow guess pixel above row) above (zeros pixel ++ above) =
      row := by
  have h := decodeRow_from hpixel guess above [] row
  simp only [List.append_nil, List.length_nil, List.drop_zero, List.nil_append, Nat.zero_add] at h
  exact h

/-! ## Tagged rows -/

variable {width : Nat}

theorem length_encodeTagged {rows : List (RowFilter × Bytes)}
    (hwidth : ∀ r ∈ rows, r.2.length = width) (above : Bytes) :
    (encodeTagged pixel above rows).length = rows.length * (width + 1) := by
  induction rows generalizing above with
  | nil => simp [encodeTagged]
  | cons r rest ih =>
    obtain ⟨hrow, hrest⟩ := List.forall_mem_cons.mp hwidth
    simp only [encodeTagged, List.length_append, List.length_cons, length_encodeRow, hrow, ih hrest]
    rw [Nat.succ_mul, Nat.add_comm]

/-- Tagged rows are decoded one after the other, each under the one before it. -/
theorem decodeTagged_encodeTagged (hpixel : 0 < pixel) {rows : List (RowFilter × Bytes)}
    (hwidth : ∀ r ∈ rows, r.2.length = width) (above extra : Bytes) :
    decodeTagged pixel width above rows.length (encodeTagged pixel above rows ++ extra) =
      .ok (rows.flatMap (·.2)) := by
  induction rows generalizing above with
  | nil => simp [decodeTagged]
  | cons r rest ih =>
    obtain ⟨f, row⟩ := r
    obtain ⟨hrow, hrest⟩ := List.forall_mem_cons.mp hwidth
    have hencoded : (encodeRow f.expected pixel above row).length = width :=
      (length_encodeRow _ _ _ _).trans hrow
    rw [encodeTagged, List.length_cons, List.cons_append, List.cons_append, decodeTagged,
      guess?_tag]
    simp only [List.append_assoc, List.take_left' hencoded, List.drop_left' hencoded,
      decodeRow_encodeRow hpixel, ih hrest, List.flatMap_cons]

/-! ## Rows without tags -/

/-- A guess that only looks to the left needs no rows above. -/
theorem decodeRow_sub (lefts row ups corners ups' corners' : Bytes) :
    decodeRow RowFilter.sub.expected lefts row ups corners =
      decodeRow RowFilter.sub.expected lefts row ups' corners' := by
  induction row generalizing lefts ups corners ups' corners' with
  | nil => rfl
  | cons b row ih =>
    simp only [decodeRow, RowFilter.expected, List.cons.injEq, true_and]
    exact ih _ _ _ _ _

/-- The first row is encoded as a row. -/
theorem take_encodeHorizontal (data : Bytes) :
    (encodeHorizontal pixel width data).take width =
      encodeRow RowFilter.sub.expected pixel [] (data.take width) := by
  refine List.ext_getElem? fun i => ?_
  simp only [encodeHorizontal, encodeRow, List.getElem?_take, List.getElem?_mapIdx]
  by_cases hi : i < width
  · have hleft : (if i % width < pixel then 0 else data.getD (i - pixel) 0) =
        leftOf pixel (data.take width) i := by
      rw [leftOf, Nat.mod_eq_of_lt hi, List.getD_eq_getElem?_getD, List.getD_eq_getElem?_getD,
        List.getElem?_take_of_lt (Nat.lt_of_le_of_lt (Nat.sub_le i pixel) hi)]
    simp only [hi, if_true, hleft, RowFilter.expected]
  · simp only [hi, if_false, Option.map_none]

/-- The data behind the first row is encoded as data of its own. -/
theorem drop_encodeHorizontal (data : Bytes) :
    (encodeHorizontal pixel width data).drop width =
      encodeHorizontal pixel width (data.drop width) := by
  refine List.ext_getElem? fun i => ?_
  have hleft : (if (width + i) % width < pixel then 0 else data.getD (width + i - pixel) 0) =
      if i % width < pixel then 0 else (data.drop width).getD (i - pixel) 0 := by
    rw [Nat.add_mod_left]
    split
    · rfl
    · -- the byte in front by a pixel is in the same row
      have hle : pixel ≤ i := by
        have := Nat.mod_le i width
        omega
      rw [List.getD_eq_getElem?_getD, List.getD_eq_getElem?_getD, List.getElem?_drop,
        Nat.add_sub_assoc hle]
  simp only [encodeHorizontal, List.getElem?_drop, List.getElem?_mapIdx, hleft]

theorem decodeHorizontal_encodeHorizontal (hpixel : 0 < pixel) {rows : Nat} {data : Bytes}
    (hrows : data.length ≤ rows * width) :
    decodeHorizontal pixel width rows (encodeHorizontal pixel width data) = data := by
  induction rows generalizing data with
  | zero =>
    rw [Nat.zero_mul, Nat.le_zero, List.length_eq_zero_iff] at hrows
    rw [hrows, decodeHorizontal]
  | succ rows ih =>
    have hrest : (data.drop width).length ≤ rows * width := by
      rw [List.length_drop]
      rw [Nat.succ_mul] at hrows
      omega
    rw [decodeHorizontal, take_encodeHorizontal, drop_encodeHorizontal, ih hrest]
    have hrow := decodeRow_encodeRow hpixel RowFilter.sub.expected [] (data.take width)
    rw [decodeRow_sub _ _ _ _ [] []] at hrow
    exact (congrArg (· ++ data.drop width) hrow).trans (List.take_append_drop width data)

/-! ## Shapes -/

/-- A predictor in whose pixels and rows there is anything. -/
structure Shaped (p : Predictor) : Prop where
  colors : 0 < p.colors
  bits : 0 < p.bitsPerComponent
  columns : 0 < p.columns

/-- Whatever the parameters of a filter say, the predictor that they ask for has a shape. -/
theorem shaped_of_ofParams? {params : Dict Object} {p : Predictor} (h : ofParams? params = some p) :
    p.Shaped := by
  obtain ⟨kind, -, rfl⟩ := Option.map_eq_some_iff.mp h
  constructor
  · simp only [clamp]
    omega
  · simp only [clamp]
    omega
  · dsimp only
    omega

variable {p : Predictor}

theorem Shaped.pixelLength_pos (h : p.Shaped) : 0 < p.pixelLength := by
  have hbits : 0 < p.pixelBits := Nat.mul_pos h.colors h.bits
  unfold pixelLength
  omega

theorem Shaped.rowLength_pos (h : p.Shaped) : 0 < p.rowLength := by
  have hbits : 0 < p.columns * p.pixelBits :=
    Nat.mul_pos h.columns (Nat.mul_pos h.colors h.bits)
  unfold rowLength
  omega

/-! ## The whole data -/

theorem decode_encodeTagged (shaped : p.Shaped) (hkind : p.kind = .png)
    {rows : List (RowFilter × Bytes)} (hwidth : ∀ r ∈ rows, r.2.length = p.rowLength)
    {extra : Bytes} (hextra : extra.length ≤ p.rowLength) (hsome : rows = [] → extra = []) :
    p.decode (encodeTagged p.pixelLength (zeros p.rowLength) rows ++ extra) =
      .ok (rows.flatMap (·.2)) := by
  have hlength : (encodeTagged p.pixelLength (zeros p.rowLength) rows ++ extra).length =
      rows.length * (p.rowLength + 1) + extra.length := by
    rw [List.length_append, length_encodeTagged hwidth]
  cases rows with
  | nil =>
    rw [hsome rfl]
    rfl
  | cons r rest =>
    generalize hdata :
      encodeTagged p.pixelLength (zeros p.rowLength) (r :: rest) ++ extra = data at *
    have hlong : p.rowLength ≤ data.length - 1 := by
      rw [hlength, List.length_cons, Nat.succ_mul]
      omega
    have hrows : data.length / (p.rowLength + 1) = (r :: rest).length := by
      rw [hlength, Nat.add_comm, Nat.add_mul_div_right _ _ (Nat.succ_pos _),
        Nat.div_eq_of_lt (Nat.lt_succ_of_le hextra), Nat.zero_add]
    have hsome : data.isEmpty = false := by
      rw [List.isEmpty_eq_false_iff, ← List.length_pos_iff]
      have := shaped.rowLength_pos
      omega
    rw [decode, hsome, hkind]
    simp only [rowLength?, hlong, if_true, Bool.false_eq_true, if_false]
    change decodeTagged _ _ _ (data.length / (p.rowLength + 1)) data = _
    rw [hrows, ← hdata]
    exact decodeTagged_encodeTagged shaped.pixelLength_pos hwidth _ extra

theorem decode_encodeHorizontal (shaped : p.Shaped) (hkind : p.kind = .tiff)
    (hbits : p.bitsPerComponent = 8) {data : Bytes} (hrow : p.rowLength ≤ data.length) :
    p.decode (encodeHorizontal p.pixelLength p.rowLength data) = .ok data := by
  have hwidth := shaped.rowLength_pos
  have hlength : (encodeHorizontal p.pixelLength p.rowLength data).length = data.length :=
    List.length_mapIdx
  have hsome : (encodeHorizontal p.pixelLength p.rowLength data).isEmpty = false := by
    rw [List.isEmpty_eq_false_iff, ← List.length_pos_iff, hlength]
    omega
  -- as many rounds as rows, the last one counted even if it is short
  have hrows : data.length ≤ (data.length + p.rowLength - 1) / p.rowLength * p.rowLength := by
    have hdiv := Nat.div_add_mod (data.length + p.rowLength - 1) p.rowLength
    have hmod := Nat.mod_lt (data.length + p.rowLength - 1) hwidth
    rw [Nat.mul_comm] at hdiv
    omega
  rw [decode, hsome, hkind]
  simp only [hbits, rowLength?, hlength, hrow, if_true, Bool.false_eq_true, if_false, ne_eq,
    not_true_eq_false]
  exact congrArg Except.ok (decodeHorizontal_encodeHorizontal shaped.pixelLength_pos hrows)

theorem pixelLength_eq (p : Predictor) :
    p.pixelLength = p.colors * p.bitsPerComponent ⌈/⌉ 8 := by
  rw [Nat.ceilDiv_eq_add_pred_div]
  rfl

theorem rowLength_eq (p : Predictor) :
    p.rowLength = p.columns * p.colors * p.bitsPerComponent ⌈/⌉ 8 := by
  rw [Nat.ceilDiv_eq_add_pred_div, Nat.mul_assoc]
  rfl

/-- Predictor decoding undoes predictor encoding, whatever the shape of the rows. Of tagged rows
    each may have a filter of its own, and bytes behind the last whole row are ignored, if there is
    a row. Of rows without tags the last one may be short. -/
theorem decode_predicted (shaped : p.Shaped) :
    let pixel := p.colors * p.bitsPerComponent ⌈/⌉ 8
    let width := p.columns * p.colors * p.bitsPerComponent ⌈/⌉ 8
    (p.kind = .png → ∀ (rows : List (RowFilter × Bytes)) (extra : Bytes),
      (∀ r ∈ rows, r.2.length = width) → extra.length < width + 1 →
      (rows = [] → extra = []) →
      p.decode (encodeTagged pixel (zeros width) rows ++ extra) = .ok (rows.flatMap (·.2))) ∧
    (p.kind = .tiff → p.bitsPerComponent = 8 → ∀ data : Bytes, width ≤ data.length →
      p.decode (encodeHorizontal pixel width data) = .ok data) := by
  intro pixel width
  have hpixel : pixel = p.pixelLength := p.pixelLength_eq.symm
  have hwidth : width = p.rowLength := p.rowLength_eq.symm
  rw [hpixel, hwidth]
  constructor
  · intro hkind rows extra hrows hextra hsome
    exact decode_encodeTagged shaped hkind hrows (Nat.le_of_lt_succ hextra) hsome
  · intro hkind hbits data hrow
    exact decode_encodeHorizontal shaped hkind hbits hrow

/-- Rows of three pixels of three colors with four bits: five bytes for a row, and two of them
    between a byte and the one it is compared with. -/
def sampleRows : List (RowFilter × Bytes) :=
  [(.sub, [250, 5, 9, 200, 0]), (.paeth, [7, 7, 30, 199, 255]), (.up, [0, 1, 2, 3, 4]),
    (.average, [255, 254, 9, 8, 7]), (.none, [1, 2, 3, 4, 5])]

/-- The parameters that describe the rows. -/
def sampleParams : Dict Object :=
  Dict.empty.insert "Predictor" (.integer 15) |>.insert "Colors" (.integer 3)
    |>.insert "BitsPerComponent" (.integer 4) |>.insert "Columns" (.integer 3)

/-- The rows as a decoder is given them, with two bytes behind the last one. -/
theorem sampleRows_decoded :
    ∃ p, ofParams? sampleParams = some p ∧
      p.decode [1, 250, 5, 15, 195, 247, 4, 13, 2, 23, 255, 225, 2, 249, 250, 228, 60, 5,
        3, 255, 254, 137, 136, 1, 0, 1, 2, 3, 4, 5, 9, 9] =
        .ok [250, 5, 9, 200, 0, 7, 7, 30, 199, 255, 0, 1, 2, 3, 4, 255, 254, 9, 8, 7,
          1, 2, 3, 4, 5] := by
  have hparams : ofParams? sampleParams = some ⟨.png, 3, 4, 3⟩ := by
    decide +kernel
  have hencoded : encodeTagged (3 * 4 ⌈/⌉ 8) (zeros (3 * 3 * 4 ⌈/⌉ 8)) sampleRows ++ [9, 9] =
      [1, 250, 5, 15, 195, 247, 4, 13, 2, 23, 255, 225, 2, 249, 250, 228, 60, 5,
        3, 255, 254, 137, 136, 1, 0, 1, 2, 3, 4, 5, 9, 9] := by
    decide +kernel
  refine ⟨_, hparams, ?_⟩
  rw [← hencoded]
  exact (decode_predicted (shaped_of_ofParams? hparams)).1 rfl sampleRows [9, 9]
    (by decide +kernel) (by decide +kernel) (by decide)

end CrossReference.Predictor
