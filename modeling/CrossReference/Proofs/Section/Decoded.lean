import CrossReference.Filter.Pipeline
import CrossReference.Proofs.Filter.Stored
import CrossReference.Proofs.Section.Encoded

set_option autoImplicit false

/-! # Encoded data and its dictionary

How far the dictionary of an encoder describes the data beside it. A stream is decoded as three of
its names say (`decodeStream_congr`), and of these an encoder sets only the filter, and only when it
compresses. What was added to the dictionary for the others stays: a filter is undone that was never
applied, or a predictor. `decode_buildWith` says what comes of that, and that the records come back
if nothing of the kind was added. -/

namespace CrossReference

/-! ## What decoding depends on -/

namespace Filter

variable {entries entries' : Dict Object}

theorem namesOf_congr (h : entries.get? "Filter" = entries'.get? "Filter") :
    namesOf entries = namesOf entries' := by
  unfold namesOf
  rw [h]

theorem paramsAt?_congr (hparams : entries.get? "DecodeParms" = entries'.get? "DecodeParms")
    (hshort : entries.get? "DP" = entries'.get? "DP") (index : Nat) :
    paramsAt? entries index = paramsAt? entries' index := by
  unfold paramsAt?
  rw [hparams, hshort]

/-- Undoes the predictor of the filter at an index. -/
def unpredictAt (entries : Dict Object) (index : Nat) (data : Bytes) : Except StreamFault Bytes :=
  match (paramsAt? entries index).bind Predictor.ofParams? with
  | some predictor => predictor.decode data
  | none => .ok data

theorem applyAt_of_apply {n : Name} {f : Filter} (hname : ofName? n = some f) {data decoded : Bytes}
    (happly : f.apply data = .ok decoded) (index : Nat) :
    applyAt entries index n data = unpredictAt entries index decoded := by
  unfold applyAt
  rw [hname]
  dsimp only
  rw [happly]
  rfl

/-- Filters are undone in the same way where the parameters are the same, by induction on them. -/
theorem applyFrom_congr (h : ∀ index, paramsAt? entries index = paramsAt? entries' index)
    (index : Nat) (names : List Name) (data : Bytes) :
    applyFrom entries index names data = applyFrom entries' index names data := by
  induction names generalizing index data with
  | nil => rfl
  | cons n rest ih =>
    have happly : applyAt entries index n data = applyAt entries' index n data := by
      unfold applyAt
      rw [h]
    unfold applyFrom
    rw [happly]
    cases applyAt entries' index n data with
    | error fault => rfl
    | ok decoded => exact ih _ _

theorem decodeStream_congr (hfilter : entries.get? "Filter" = entries'.get? "Filter")
    (hparams : entries.get? "DecodeParms" = entries'.get? "DecodeParms")
    (hshort : entries.get? "DP" = entries'.get? "DP") (data : Bytes) :
    decodeStream entries data = decodeStream entries' data := by
  have hfrom := applyFrom_congr (paramsAt?_congr hparams hshort) 0
  unfold decodeStream
  rw [namesOf_congr hfilter]
  simp only [hfrom]

/-- Data without a filter is taken as it is, whatever parameters there are. -/
theorem decodeStream_unfiltered (h : entries.get? "Filter" = none) (data : Bytes) :
    decodeStream entries data = .ok data := by
  unfold decodeStream namesOf
  rw [h]
  rfl

theorem decodeStream_flate (hfilter : entries.get? "Filter" = some (.name "FlateDecode"))
    {data decoded : Bytes} (hflate : decodeFlate data = .ok decoded) :
    decodeStream entries data = (unpredictAt entries 0 decoded).mapError .badStream := by
  have hname : ofName? "FlateDecode" = some .flate := by decide
  have happly : applyAt entries 0 "FlateDecode" data = unpredictAt entries 0 decoded :=
    applyAt_of_apply hname hflate 0
  unfold decodeStream namesOf
  rw [hfilter]
  change ((applyAt entries 0 "FlateDecode" data).bind (applyFrom entries 1 [] ·)).mapError _ = _
  rw [happly]
  cases unpredictAt entries 0 decoded <;> rfl

end Filter

/-! ## Encoders -/

namespace Encoder

variable (x : Encoder)

/-- The same records, to be written as they are and with nothing else in the dictionary. -/
def bare : Encoder := { x with trailer := .empty, compress := false }

/-- The names whose values are always the encoder's. -/
def ownNames : List Name := ["Type", "W", "Index", "Size", "Length"]

variable {x} {deflate : Bytes → Bytes} {size : Nat}

/-- The bare records have the same size, so they are built where anything is. -/
theorem build_bare (h : x.size = some size) :
    ∃ bare, x.bare.build = some bare ∧ bare.2 = x.recordBytes :=
  ⟨_, buildWith_eq_some.mpr ⟨size, h, rfl⟩, rfl⟩

/-- All other names have the values that were added, but for the filter of compressed data. -/
theorem get?_added {n : Name} (hown : n ∉ ownNames)
    (hfilter : n ≠ "Filter" ∨ x.compress = false) :
    (x.stream deflate size).1.get? n = x.trailer.get? n := by
  simp only [ownNames, List.mem_cons, List.not_mem_nil, or_false, not_or] at hown
  obtain ⟨htype, hwidths, hindex, hsize, hlength⟩ := hown
  have hdescribe : (x.describe size).get? n = x.trailer.get? n := by
    unfold describe
    dsimp only
    rw [Dict.get?_insert, if_neg hsize, Dict.get?_insert, if_neg hindex, Dict.get?_insert,
      if_neg hwidths, Dict.get?_insert, if_neg htype]
  unfold stream
  dsimp only
  split
  · rename_i hcompress
    have hfilter := hfilter.resolve_right (by rw [hcompress]; decide)
    rw [Dict.get?_insert, if_neg hlength, Dict.get?_insert, if_neg hfilter, hdescribe]
  · rw [Dict.get?_insert, if_neg hlength, hdescribe]

/-- Without compression the records are decoded as the added names say. -/
theorem decode_stored (h : x.compress = false) :
    Filter.decodeStream (x.stream deflate size).1 (x.stream deflate size).2 =
      Filter.decodeStream x.trailer x.recordBytes := by
  have hdata : (x.stream deflate size).2 = x.recordBytes := by
    unfold stream
    rw [h, if_neg Bool.false_ne_true]
  rw [hdata]
  exact Filter.decodeStream_congr (get?_added (by decide) (Or.inr h))
    (get?_added (by decide) (Or.inr h)) (get?_added (by decide) (Or.inr h)) _

/-- With compression they are decompressed, and what was added for a predictor is undone. -/
theorem decode_compressed (undone : ∀ data, Filter.decodeFlate (deflate data) = .ok data)
    (h : x.compress = true) :
    Filter.decodeStream (x.stream deflate size).1 (x.stream deflate size).2 =
      (Filter.unpredictAt x.trailer 0 x.recordBytes).mapError .badStream := by
  have hdata : (x.stream deflate size).2 = deflate x.recordBytes := by
    unfold stream
    rw [h, if_pos rfl]
  have hfilter : (x.stream deflate size).1.get? "Filter" = some (.name "FlateDecode") := by
    unfold stream
    rw [h, if_pos rfl, Dict.get?_insert, if_neg (by decide), Dict.get?_insert, if_pos rfl]
  rw [hdata, Filter.decodeStream_flate hfilter (undone _), Filter.unpredictAt, Filter.unpredictAt,
    Filter.paramsAt?_congr (get?_added (by decide) (Or.inl (by decide)))
      (get?_added (by decide) (Or.inl (by decide)))]

/-- How the data of an encoder is decoded with the dictionary beside it, for any compression that
    decompression undoes: without compression with the filters that were added to the dictionary,
    with compression with the predictor that was added. So the records come back if no filter was
    added, or no parameters. A stream is built wherever the bare records are, which is so if each
    object number has a word behind it. -/
theorem decode_buildWith (undone : ∀ data, Filter.decodeFlate (deflate data) = .ok data)
    (x : Encoder) :
    ((∃ built, x.buildWith deflate = some built) ↔ ∀ n ∈ x.numbers, n < Decimal.maxWord64) ∧
    ∀ built, x.buildWith deflate = some built →
      ∃ bare, x.bare.build = some bare ∧
        (Filter.decodeStream built.1 built.2 =
          if x.compress then (Filter.unpredictAt x.trailer 0 bare.2).mapError .badStream
          else Filter.decodeStream x.trailer bare.2) ∧
        ((if x.compress then x.trailer.get? "DecodeParms" = none ∧ x.trailer.get? "DP" = none
          else x.trailer.get? "Filter" = none) →
          Filter.decodeStream built.1 built.2 = .ok bare.2) := by
  refine ⟨exists_build_iff, fun built hbuilt => ?_⟩
  obtain ⟨size, hsize, rfl⟩ := buildWith_eq_some.mp hbuilt
  obtain ⟨bare, hbare, hrecords⟩ := build_bare hsize
  refine ⟨bare, hbare, ?_⟩
  rw [hrecords]
  cases h : x.compress with
  | false =>
    rw [decode_stored h]
    exact ⟨rfl, fun hfilter => Filter.decodeStream_unfiltered hfilter _⟩
  | true =>
    rw [decode_compressed undone h]
    refine ⟨rfl, fun hparams => ?_⟩
    have hnone : Filter.paramsAt? x.trailer 0 = none := by
      unfold Filter.paramsAt?
      rw [hparams.1, hparams.2]
      rfl
    unfold Filter.unpredictAt
    rw [hnone]
    rfl

/-- An encoder with two entries and a root, which compresses. -/
def rootedEncoder : Encoder :=
  (addEntries {} [(⟨1, 0⟩, .direct 15), (⟨2, 0⟩, .compressed 1 0)]).addTrailer "Root"
    (.reference ⟨1, 0⟩)

theorem rootedEncoder_decoded :
    (∀ data, Filter.decodeFlate (Filter.encodeFlate data) = .ok data) ∧
    ∃ built, rootedEncoder.build = some built ∧
      Filter.decodeStream built.1 built.2 = .ok [1, 15, 2, 1] := by
  obtain ⟨builds, decodes⟩ := decode_buildWith Filter.decodeFlate_encodeFlate rootedEncoder
  obtain ⟨built, hbuilt⟩ := builds.mpr (by decide)
  obtain ⟨bare, hbare, _, hdecoded⟩ := decodes built hbuilt
  have hrecords : bare.2 = [1, 15, 2, 1] := by
    obtain ⟨size, _, rfl⟩ := buildWith_eq_some.mp hbare
    show rootedEncoder.recordBytes = [1, 15, 2, 1]
    decide
  rw [← hrecords]
  exact ⟨Filter.decodeFlate_encodeFlate, built, hbuilt, hdecoded ⟨rfl, rfl⟩⟩

/-- An encoder that is given a filter of its own, and does not compress. -/
def filteredEncoder : Encoder :=
  (plain.addEntry ⟨1, 0⟩ (.direct 7)).addTrailer "Filter" (.name "AHx")

/-- An encoder that is given a predictor, and compresses. -/
def predictedEncoder : Encoder :=
  (addEntries {} [(⟨1, 0⟩, .direct 1), (⟨2, 2⟩, .free 2)]).addTrailer "DecodeParms"
    (.dict (Dict.empty.insert "Predictor" (.integer 2) |>.insert "Columns" (.integer 3)))

/-- Neither gets its records back: the first one fails, the second one gets other records. -/
theorem records_lost :
    (∃ bare built, filteredEncoder.bare.build = some bare ∧ bare.2 = [1, 7] ∧
      filteredEncoder.build = some built ∧
      ∃ e, Filter.decodeStream built.1 built.2 = .error e) ∧
    ∃ bare built, predictedEncoder.bare.build = some bare ∧ bare.2 = [1, 1, 0, 0, 2, 2] ∧
      predictedEncoder.build = some built ∧
      Filter.decodeStream built.1 built.2 = .ok [1, 2, 2, 0, 2, 4] := by
  have hfiltered : filteredEncoder.size = some 2 := by decide
  have hpredicted : predictedEncoder.size = some 3 := by decide
  constructor
  · obtain ⟨bare, hbare, hrecords⟩ := build_bare hfiltered
    refine ⟨bare, _, hbare, hrecords.trans (by decide),
      buildWith_eq_some.mpr ⟨2, hfiltered, rfl⟩, ?_⟩
    exact ⟨_, (decode_stored rfl).trans (by rfl)⟩
  · obtain ⟨bare, hbare, hrecords⟩ := build_bare hpredicted
    refine ⟨bare, _, hbare, hrecords.trans (by decide),
      buildWith_eq_some.mpr ⟨3, hpredicted, rfl⟩, ?_⟩
    rw [decode_compressed Filter.decodeFlate_encodeFlate rfl]
    rfl

end Encoder

end CrossReference
