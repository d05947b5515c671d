import CrossReference.Filter.Bits

set_option autoImplicit false

/-! # Canonical Huffman codes

A canonical code is given by the lengths of its words alone. Among words of one length the symbols
are in order, and each length goes on counting where the one before it stopped. So a word is found
by reading it bit by bit and comparing it, as a number, with the first word of its length and with
the count of words there. -/

namespace CrossReference.Filter

/-- The longest word of a code. -/
def maxCodeLength : Nat := 15

/-- A canonical code. -/
structure HuffmanCode where
  /-- For each length from one on, the symbols whose words have it, in order. -/
  symbols : List (List Nat)
  /-- How much of the space of words is used, counted in words of the greatest length. -/
  used : Nat

namespace HuffmanCode

/-! ## Making codes -/

/-- The symbols of a list of lengths that have one of them. -/
def symbolsOfLength (lengths : List Nat) (length : Nat) : List Nat :=
  (lengths.zipIdx.filter (·.1 = length)).map (·.2)

/-- The space that words use, in words of the greatest length: twice what the shorter words use, and
    the words of the length itself. -/
def usedSpace (symbols : List (List Nat)) : Nat :=
  symbols.foldl (fun total symbols => total * 2 + symbols.length) 0

/-- The code with given word lengths, zero for symbols without a word. -/
def ofLengths (lengths : List Nat) : HuffmanCode :=
  let symbols := (List.range maxCodeLength).map fun i => symbolsOfLength lengths (i + 1)
  { symbols, used := usedSpace symbols }

/-- How many symbols have words. -/
def symbolCount (code : HuffmanCode) : Nat :=
  code.symbols.foldl (fun n symbols => n + symbols.length) 0

/-- Whether every sequence of bits begins with a word, and with one only. -/
def isComplete (code : HuffmanCode) : Bool := code.used = 1 <<< maxCodeLength

/-- Whether the only word is a single bit, so that it takes half of the space. -/
def isSingleBit (code : HuffmanCode) : Bool :=
  code.symbolCount = 1 && code.used = 1 <<< (maxCodeLength - 1)

/-- A code in use may be complete. It may also have no word at all, or the shortest one only. -/
def isUsable (code : HuffmanCode) : Bool :=
  code.isComplete || code.symbolCount = 0 || code.isSingleBit

/-! ## Reading words -/

/-- Reads the rest of a word. So far it is `word`, the first word of the length reached now is
    `first`, and the symbols of that length and of those above it are given. Words leave no gaps in
    the space that they use, so bits that lie beyond it begin no word. -/
def decodeFrom (used word first : Nat) : List (List Nat) → BitReader Nat
  | [] => throw .corrupt
  | symbols :: longer => do
    let word := word + (← BitReader.bit)
    if word < first + symbols.length then
      match symbols[word - first]? with
      | some symbol => return symbol
      | none => throw .corrupt
    else if used ≤ word <<< longer.length then throw .corrupt
    else decodeFrom used (word * 2) ((first + symbols.length) * 2) longer

/-- Reads a word and answers with its symbol. -/
def decode (code : HuffmanCode) : BitReader Nat := decodeFrom code.used 0 0 code.symbols

end HuffmanCode

end CrossReference.Filter
