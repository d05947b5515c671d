import CrossReference.Error

set_option autoImplicit false

/-! # Predictors

A predictor stores each byte of a row of samples as its difference from a guess, made from the bytes
before it: the one a whole pixel to the left, the one above, and the one above that. Decoding adds
the guess again. The horizontal predictor always guesses the left byte; the tagged predictors put a
byte in front of each row that says how its bytes are guessed. In front of a row, and above the
first one, all bytes are zero. -/

namespace CrossReference

/-- The two families of predictors. -/
inductive PredictorKind where
  /-- Every byte is guessed to be the one to its left. -/
  | tiff
  /-- Each row brings a tag. -/
  | png
deriving DecidableEq, Repr

/-- A predictor and the shape of its rows. -/
structure Predictor where
  kind : PredictorKind
  colors : Nat
  bitsPerComponent : Nat
  columns : Nat
deriving DecidableEq, Repr

namespace Predictor

/-! ## Parameters -/

/-- The integer that a dictionary gives to a name, or else a default. -/
def parameter (params : Dict Object) (n : Name) (default : Int) : Int :=
  ((params.get? n).bind Object.int?).getD default

/-- A number moved into a range. -/
def clamp (low high value : Int) : Nat := (max low (min high value)).toNat

/-- The family that a predictor number belongs to. -/
def kind? (number : Int) : Option PredictorKind :=
  if number = 2 then some .tiff
  else if 10 ≤ number && number ≤ 15 then some .png
  else none

/-- The predictor that the parameters of a filter ask for. -/
def ofParams? (params : Dict Object) : Option Predictor :=
  (kind? (parameter params "Predictor" 1)).map fun kind =>
    { kind
      colors := clamp 1 32 (parameter params "Colors" 1)
      bitsPerComponent := clamp 1 16 (parameter params "BitsPerComponent" 8)
      columns := (max 1 (parameter params "Columns" 1)).toNat }

/-- The bits of a pixel. -/
def pixelBits (p : Predictor) : Nat := p.colors * p.bitsPerComponent

/-- The distance of a byte from the one a pixel before it. -/
def pixelLength (p : Predictor) : Nat := (p.pixelBits + 7) / 8

/-- The bytes of a row. -/
def rowLength (p : Predictor) : Nat := (p.columns * p.pixelBits + 7) / 8

/-- The bytes of a row, if so many bytes can hold one. -/
def rowLength? (p : Predictor) (available : Nat) : Except StreamFault Nat :=
  if p.rowLength ≤ available then .ok p.rowLength
  else .error (.predictorRow p.columns available)

/-! ## Guesses -/

/-- A guess from the bytes to the left, above, and above to the left. -/
abbrev Guess := UInt8 → UInt8 → UInt8 → UInt8

/-- The distance of two numbers. -/
def distance (a b : Int) : Nat := (a - b).natAbs

/-- The one of three bytes that is nearest to `left + up - corner`, the first of them in a tie. -/
def paeth (left up corner : UInt8) : UInt8 :=
  let p : Int := (left.toNat : Int) + up.toNat - corner.toNat
  let toLeft := distance p left.toNat
  let toUp := distance p up.toNat
  let toCorner := distance p corner.toNat
  if toLeft ≤ toUp && toLeft ≤ toCorner then left
  else if toUp ≤ toCorner then up
  else corner

/-- The guess that a row tag stands for. -/
def guess? (tag : UInt8) : Option Guess :=
  if tag = 0 then some fun _ _ _ => 0
  else if tag = 1 then some fun left _ _ => left
  else if tag = 2 then some fun _ up _ => up
  else if tag = 3 then some fun left up _ => UInt8.ofNat ((left.toNat + up.toNat) / 2)
  else if tag = 4 then some paeth
  else none

/-! ## Decoding -/

/-- Adds the guesses to the bytes of a row. The bytes of the last pixel decoded are given, first
    byte first, then the bytes above, and those above to the left. -/
def decodeRow (guess : Guess) : (lefts row ups corners : Bytes) → Bytes
  | _, [], _, _ => []
  | lefts, b :: row, ups, corners =>
    let decoded := b + guess (lefts.headD 0) (ups.headD 0) (corners.headD 0)
    decoded :: decodeRow guess (lefts.drop 1 ++ [decoded]) row (ups.drop 1) (corners.drop 1)

/-- A row of zeros. -/
def zeros (n : Nat) : Bytes := List.replicate n 0

/-- Decodes so many tagged rows. The row above the first of them is given. -/
def decodeTagged (pixel width : Nat) (above : Bytes) :
    (rows : Nat) → Bytes → Except StreamFault Bytes
  | rows + 1, tag :: rest =>
    match guess? tag with
    | none => .error (.pngTag tag)
    | some guess =>
      let row := decodeRow guess (zeros pixel) (rest.take width) above (zeros pixel ++ above)
      match decodeTagged pixel width row rows (rest.drop width) with
      | .ok below => .ok (row ++ below)
      | .error fault => .error fault
  | _, _ => .ok []

/-- Decodes so many rows without tags; the last one may be short. -/
def decodeHorizontal (pixel width : Nat) : (rows : Nat) → Bytes → Bytes
  | 0, _ => []
  | rows + 1, data =>
    decodeRow (fun left _ _ => left) (zeros pixel) (data.take width) [] [] ++
      decodeHorizontal pixel width rows (data.drop width)

/-- Decodes data. Bytes behind the last whole tagged row are ignored. -/
def decode (p : Predictor) (data : Bytes) : Except StreamFault Bytes :=
  if data.isEmpty then .ok []
  else
    match p.kind with
    | .tiff =>
      if p.bitsPerComponent ≠ 8 then .error (.tiffDepth p.bitsPerComponent)
      else do
        let width ← p.rowLength? data.length
        return decodeHorizontal p.pixelLength width ((data.length + width - 1) / width) data
    | .png => do
      let width ← p.rowLength? (data.length - 1)
      decodeTagged p.pixelLength width (zeros width) (data.length / (width + 1)) data

end Predictor

end CrossReference
