import CrossReference.Byte

set_option autoImplicit false

/-! # Searching bytes

The first and the last place where a pattern occurs. An empty pattern occurs nowhere: it would mark
no place in a document. -/

namespace CrossReference.Bytes

/-- The least index from `i` on, the index of the head of the text, at which the pattern stands. -/
def firstFrom (pattern : Bytes) (i : Nat) : Bytes → Option Nat
  | [] => none
  | b :: rest =>
    if pattern.isPrefixOf (b :: rest) then some i else firstFrom pattern (i + 1) rest

/-- The index of the first occurrence of a pattern. -/
def first? (pattern text : Bytes) : Option Nat :=
  if pattern.isEmpty then none else firstFrom pattern 0 text

/-- The greatest index from `i` on at which the pattern stands, or else the one found `before`. -/
def lastFrom (pattern : Bytes) (before : Option Nat) (i : Nat) : Bytes → Option Nat
  | [] => before
  | b :: rest =>
    lastFrom pattern (if pattern.isPrefixOf (b :: rest) then some i else before) (i + 1) rest

/-- The index of the last occurrence of a pattern. -/
def last? (pattern text : Bytes) : Option Nat :=
  if pattern.isEmpty then none else lastFrom pattern none 0 text

/-! ## Searching a long text piece by piece -/

/-- How far each piece of a long search starts behind the one before it. -/
def stride : Nat := 8192

theorem stride_pos : 0 < stride := by decide

/-- Searches a span in pieces. Each piece reaches over into the next one by the pattern's length, so
    an occurrence that straddles two pieces is found in the first of them. -/
def firstInPieces (pattern : Bytes) (offset : Nat) (span : Bytes) : Option Nat :=
  match first? pattern (span.take (stride + pattern.length)) with
  | some i => some (offset + i)
  | none =>
    if _h : stride + pattern.length < span.length then
      firstInPieces pattern (offset + stride) (span.drop stride)
    else none
termination_by span.length
decreasing_by
  have := stride_pos
  simp only [List.length_drop]
  omega

end CrossReference.Bytes
