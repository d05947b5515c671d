import CrossReference.Filter.Huffman

set_option autoImplicit false

/-! # Decompression

Compressed data consists of blocks: stored ones, ones with a fixed code, and ones that bring a code
of their own. Inside a block a symbol is a byte, the end of the block, or the length of a copy whose
distance follows. Every symbol takes a bit at least, and every block takes three, so the bits that
are left bound the rounds. -/

namespace CrossReference.Filter

/-! ## Tables -/

/-- The least length, and how many bits are added to it, of each symbol for a copy. -/
def lengthTable : List (Nat × Nat) :=
  [(3, 0), (4, 0), (5, 0), (6, 0), (7, 0), (8, 0), (9, 0), (10, 0), (11, 1), (13, 1), (15, 1),
   (17, 1), (19, 2), (23, 2), (27, 2), (31, 2), (35, 3), (43, 3), (51, 3), (59, 3), (67, 4),
   (83, 4), (99, 4), (115, 4), (131, 5), (163, 5), (195, 5), (227, 5), (258, 0)]

/-- The least distance, and how many bits are added to it, of each symbol for a distance. -/
def distanceTable : List (Nat × Nat) :=
  [(1, 0), (2, 0), (3, 0), (4, 0), (5, 1), (7, 1), (9, 2), (13, 2), (17, 3), (25, 3), (33, 4),
   (49, 4), (65, 5), (97, 5), (129, 6), (193, 6), (257, 7), (385, 7), (513, 8), (769, 8),
   (1025, 9), (1537, 9), (2049, 10), (3073, 10), (4097, 11), (6145, 11), (8193, 12), (12289, 12),
   (16385, 13), (24577, 13)]

/-- The order in which the lengths of the code for code lengths are listed. -/
def codeLengthOrder : List Nat :=
  [16, 17, 18, 0, 8, 7, 9, 6, 10, 5, 11, 4, 12, 3, 13, 2, 14, 1, 15]

/-- The fixed code for bytes, lengths and the end of a block. -/
def fixedCode : HuffmanCode :=
  .ofLengths (List.replicate 144 8 ++ List.replicate 112 9 ++ List.replicate 24 7 ++
    List.replicate 8 8)

/-- The fixed code for distances. -/
def fixedDistanceCode : HuffmanCode := .ofLengths (List.replicate 32 5)

/-! ## Blocks -/

/-- Reads the bits that a table adds to a symbol's value. -/
def tableValue (table : List (Nat × Nat)) (symbol : Nat) : BitReader Nat :=
  match table[symbol]? with
  | none => throw .corrupt
  | some (least, extra) => return least + (← BitReader.bits extra)

/-- Reads the symbols of a block up to its end, in at most so many rounds. -/
def inflateSymbols (code distances : HuffmanCode) : Nat → BitReader Unit
  | 0 => throw .truncated
  | rounds + 1 => do
    let symbol ← code.decode
    if symbol < 256 then
      BitReader.emit (UInt8.ofNat symbol)
      inflateSymbols code distances rounds
    else if symbol = 256 then return ()
    else
      let length ← tableValue lengthTable (symbol - 257)
      let distance ← tableValue distanceTable (← distances.decode)
      BitReader.copy distance length
      inflateSymbols code distances rounds

/-- Reads so many bytes that are stored as they are. -/
def inflateBytes : Nat → BitReader Unit
  | 0 => return ()
  | count + 1 => do
    BitReader.emit (UInt8.ofNat (← BitReader.bits 8))
    inflateBytes count

/-- Reads a stored block. Its length is given twice, the second time with every bit inverted. -/
def inflateStored : BitReader Unit := do
  BitReader.align
  let length ← BitReader.bits 16
  let inverted ← BitReader.bits 16
  if length + inverted = 0xFFFF then inflateBytes length else throw .corrupt

/-- Reads the lengths of the code for code lengths, in the order in which they are listed. -/
def codeLengthLengths : Nat → BitReader (List Nat)
  | 0 => return []
  | count + 1 => do
    let length ← BitReader.bits 3
    return length :: (← codeLengthLengths count)

/-- Reads how many zeros a symbol for a run of them stands for. -/
def zeroRun (symbol : Nat) : BitReader Nat := do
  if symbol = 17 then return 3 + (← BitReader.bits 3) else return 11 + (← BitReader.bits 7)

/-- Reads code lengths until there are `count` of them, in at most so many rounds, behind those in
    `acc`, last one first. A run must not go beyond the count. -/
def codeLengths (code : HuffmanCode) (count : Nat) (acc : List Nat) : Nat → BitReader (List Nat)
  | 0 => throw .truncated
  | rounds + 1 => do
    if count ≤ acc.length then
      if acc.length = count then return acc.reverse else throw .corrupt
    else
      let symbol ← code.decode
      if symbol < 16 then codeLengths code count (symbol :: acc) rounds
      else if symbol = 16 then
        match acc with
        | [] => throw .corrupt
        | last :: _ =>
          let run := 3 + (← BitReader.bits 2)
          codeLengths code count (List.replicate run last ++ acc) rounds
      else
        let run ← zeroRun symbol
        codeLengths code count (List.replicate run 0 ++ acc) rounds

/-- The lengths in the order of the symbols, given in the order in which they are listed. -/
def inSymbolOrder (listed : List Nat) : List Nat :=
  (List.range 19).map fun symbol => ((codeLengthOrder.zip listed).lookup symbol).getD 0

/-- Reads a code if it can be used. -/
def usableCode (lengths : List Nat) : BitReader HuffmanCode :=
  let code := HuffmanCode.ofLengths lengths
  if code.isUsable then return code else throw .corrupt

/-- Reads the codes of a block that brings its own: one for bytes and lengths, one for distances. -/
def dynamicCodes : BitReader (HuffmanCode × HuffmanCode) := do
  let literals := 257 + (← BitReader.bits 5)
  let distances := 1 + (← BitReader.bits 5)
  let listed := 4 + (← BitReader.bits 4)
  if 286 < literals || 30 < distances then throw .corrupt
  let code := HuffmanCode.ofLengths (inSymbolOrder (← codeLengthLengths listed))
  if !code.isComplete then throw .corrupt
  -- the last round finds that all lengths are there
  let lengths ← codeLengths code (literals + distances) [] (literals + distances + 1)
  return (← usableCode (lengths.take literals), ← usableCode (lengths.drop literals))

/-- Reads a block, and answers whether it was the last one. -/
def inflateBlock : BitReader Bool := do
  let final ← BitReader.bit
  let kind ← BitReader.bits 2
  match kind with
  | 0 => inflateStored
  | 1 => BitReader.rounds (inflateSymbols fixedCode fixedDistanceCode)
  | 2 =>
    let (code, distances) ← dynamicCodes
    BitReader.rounds (inflateSymbols code distances)
  | _ => throw .corrupt
  return final = 1

/-- Reads blocks up to the last one, in at most so many rounds. -/
def inflateBlocks : Nat → BitReader Unit
  | 0 => throw .truncated
  | rounds + 1 => do
    if ← inflateBlock then return () else inflateBlocks rounds

/-- Decompresses blocks. -/
def inflate : BitReader Unit := BitReader.rounds inflateBlocks

end CrossReference.Filter
