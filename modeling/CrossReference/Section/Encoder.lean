import CrossReference.Filter.Flate
import CrossReference.Section.Layout
import CrossReference.Word

set_option autoImplicit false

/-! # Writing cross-reference streams

An encoder collects one entry for each object number and any further entries of the dictionary. It
writes a record for each number, in ascending order, with fields as narrow as the numbers in them
allow, and a dictionary that describes the records. The names that describe the records always have
the encoder's values. Numbers of the dictionary are signed words of 64 bits. The size, one more than
the highest object number, is the one number that an encoder may not be able to count. -/

namespace CrossReference

/-- What is to be written as a cross-reference stream. -/
structure Encoder where
  /-- The generation and the entry of each object number. -/
  records : OrderedMap Nat (Nat × Entry) := .empty
  trailer : Dict Object := .empty
  compress : Bool := true

namespace Encoder

/-! ## Collecting -/

/-- Adds an entry in the place of the one for its object number, if there is one. The generation of
    a compressed object is zero. -/
def addEntry (x : Encoder) (k : Key) (e : Entry) : Encoder :=
  let generation := match e with
    | .compressed _ _ => 0
    | _ => k.generation
  { x with records := x.records.insert k.number (generation, e) }

/-- Adds an entry of the dictionary. -/
def addTrailer (x : Encoder) (n : Name) (value : Object) : Encoder :=
  { x with trailer := x.trailer.insert n value }

/-! ## Records -/

/-- The fields of a record. -/
structure Fields where
  kind : Nat
  second : Nat
  third : Nat
deriving DecidableEq, Repr

/-- The fields of an entry's record. -/
def fieldsOf (generation : Nat) : Entry → Fields
  | .free next => ⟨0, next, generation⟩
  | .direct offset => ⟨1, offset, generation⟩
  | .compressed stream index => ⟨2, stream, index⟩

/-- The fields of all records, in order. -/
def fields (x : Encoder) : List Fields := x.records.entries.map fun r => fieldsOf r.2.1 r.2.2

/-- The width that all of some numbers fit into. -/
def widthFor (values : List Nat) : Nat := (values.map Bytes.width).foldl max 0

/-- The widths that the fields of all records fit into. -/
def widths (x : Encoder) : FieldWidths :=
  ⟨1, widthFor (x.fields.map Fields.second), widthFor (x.fields.map Fields.third)⟩

/-- The bytes of a record. -/
def encodeFields (w : FieldWidths) (f : Fields) : Bytes :=
  Bytes.bigEndian f.kind w.kind ++ Bytes.bigEndian f.second w.second ++
    Bytes.bigEndian f.third w.third

/-- The bytes of all records. -/
def recordBytes (x : Encoder) : Bytes := x.fields.flatMap (encodeFields x.widths)

/-! ## The dictionary -/

/-- Ascending numbers as ranges without gaps, behind a range that began with `start` and has `count`
    numbers so far. -/
def rangesFrom (start count : Nat) : List Nat → List (Nat × Nat)
  | [] => [(start, count)]
  | n :: rest =>
    if start + count = n then rangesFrom start (count + 1) rest
    else (start, count) :: rangesFrom n 1 rest

/-- Ascending numbers as ranges without gaps. -/
def ranges : List Nat → List (Nat × Nat)
  | [] => []
  | n :: rest => rangesFrom n 1 rest

/-- The object numbers of the records. -/
def numbers (x : Encoder) : List Nat := x.records.entries.map (·.1)

/-- One more than the highest object number, if that is a word of 64 bits; zero without records. -/
def size (x : Encoder) : Option Nat :=
  match x.numbers.getLast? with
  | none => some 0
  | some n => Word.add n 1

/-- A number of 64 bits as an integer of the document syntax. -/
def integer (n : Nat) : Object := .integer (Decimal.toSigned64 n)

/-- The index of the records. -/
def index (x : Encoder) : List Object :=
  (ranges x.numbers).flatMap fun r => [integer r.1, integer r.2]

/-- The dictionary for the records, but for their length and their filter. -/
def describe (x : Encoder) (size : Nat) : Dict Object :=
  let w := x.widths
  x.trailer
    |>.insert "Type" (.name "XRef")
    |>.insert "W" (.array [integer w.kind, integer w.second, integer w.third])
    |>.insert "Index" (.array x.index)
    |>.insert "Size" (integer size)

/-- The dictionary of the stream, and its data, for a size and a way of compressing data. -/
def stream (x : Encoder) (deflate : Bytes → Bytes) (size : Nat) : Dict Object × Bytes :=
  let entries := x.describe size
  let data := x.recordBytes
  if x.compress then
    let data := deflate data
    (entries |>.insert "Filter" (.name "FlateDecode") |>.insert "Length" (integer data.length),
      data)
  else (entries |>.insert "Length" (integer data.length), data)

/-- The dictionary of the stream, and its data, if the size is a word. -/
def buildWith (x : Encoder) (deflate : Bytes → Bytes) : Option (Dict Object × Bytes) :=
  x.size.map (x.stream deflate)

/-- What is built from stored blocks, where data is compressed at all. -/
def build (x : Encoder) : Option (Dict Object × Bytes) := x.buildWith Filter.encodeFlate

end Encoder

end CrossReference
