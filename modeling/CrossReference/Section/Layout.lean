import CrossReference.Bytes.Word
import CrossReference.Decimal.Numeral
import CrossReference.Error
import CrossReference.Table

set_option autoImplicit false

/-! # The layout of cross-reference streams

The data of a cross-reference stream is a sequence of records. A record has three fields, numbers of
fixed widths: the type of the entry and two numbers whose meaning depends on it. The index lists the
ranges of object numbers that the records are for, in the order of the records. -/

namespace CrossReference

/-- The widths of a record's fields, in bytes. -/
structure FieldWidths where
  kind : Nat
  second : Nat
  third : Nat
deriving DecidableEq, Repr

namespace FieldWidths

/-- The size of a record. -/
def total (w : FieldWidths) : Nat := w.kind + w.second + w.third

/-- The greatest width of a field. -/
def max : Nat := 8

end FieldWidths

/-- How the records of a cross-reference stream are to be read. -/
structure Layout where
  widths : FieldWidths
  /-- The first object number of each range, and how many numbers it has. -/
  index : List (Nat × Nat)
  /-- One more than the highest object number of the document. -/
  size : Nat
deriving DecidableEq, Repr

namespace Layout

/-! ## Reading the dictionary -/

/-- Reads the size. -/
def sizeOf (entries : Dict Object) : Except Error Nat :=
  match (entries.get? "Size").bind Object.int? with
  | none => .error (.missingKey "Size")
  | some (.ofNat n) => .ok n
  | some n => .error (.badStream (.negativeSize n))

/-- Reads the width of a field. -/
def widthOf (x : Object) : Except Error Nat :=
  match x.nat? with
  | some n => if n ≤ FieldWidths.max then .ok n else .error (.badStream (.badWidth x))
  | none => .error (.badStream (.badWidth x))

/-- Reads the widths of the fields. -/
def widthsOf (entries : Dict Object) : Except Error FieldWidths :=
  match (entries.get? "W").bind Object.array? with
  | none => .error (.missingKey "W")
  | some [kind, second, third] => do
    return ⟨← widthOf kind, ← widthOf second, ← widthOf third⟩
  | some items => .error (.badStream (.widthCount items.length))

/-- Reads pairs of a first number and a count. -/
def rangesOf : List Object → Except Error (List (Nat × Nat))
  | start :: count :: rest =>
    match start.nat?, count.nat? with
    | some s, some n => do return (s, n) :: (← rangesOf rest)
    | _, _ => .error (.badStream (.badIndexPair start count))
  | _ => .ok []

/-- Reads the ranges of object numbers. Without an index there is one range, up to the size. -/
def indexOf (entries : Dict Object) (size : Nat) : Except Error (List (Nat × Nat)) :=
  match entries.get? "Index" with
  | none => .ok [(0, size)]
  | some (.array items) =>
    if items.length % 2 = 0 then rangesOf items
    else .error (.badStream (.oddIndex items.length))
  | some other => .error (.badStream (.badIndex other))

/-- Reads the layout from the dictionary of a cross-reference stream. -/
def ofDict (entries : Dict Object) : Except Error Layout := do
  let size ← sizeOf entries
  let widths ← widthsOf entries
  let index ← indexOf entries size
  return { widths, index, size }

/-! ## Reading the records -/

/-- How many records the index describes. -/
def recordCount (l : Layout) : Nat := l.index.foldl (fun n range => n + range.2) 0

/-- How many bytes the records take, if both numbers fit into 64 bits. -/
def expectedLength (l : Layout) : Except Error Nat :=
  let length := l.recordCount * l.widths.total
  if l.recordCount ≤ Decimal.maxWord64 && length ≤ Decimal.maxWord64 then .ok length
  else .error (.badStream .tooManyRecords)

/-- The entry that a record stands for: without a type it is that of a direct object, and a record
    of an unknown type stands for none. -/
def entryOf (number kind second third : Nat) : Option (Key × Entry) :=
  match kind with
  | 0 => some (⟨number, third⟩, .free second)
  | 1 => some (⟨number, third⟩, .direct second)
  | 2 => some (⟨number, 0⟩, .compressed second third)
  | _ => none

/-- Reads the record for an object number. -/
def decodeRecord (w : FieldWidths) (number : Nat) (record : Bytes) :
    Except Error (Option (Key × Entry)) :=
  let kind := if w.kind = 0 then 1 else Bytes.toNat (record.take w.kind)
  let second := Bytes.toNat ((record.drop w.kind).take w.second)
  let third := Bytes.toNat ((record.drop (w.kind + w.second)).take w.third)
  if Decimal.maxWord64 < number then .error (.badStream .numberOverflow)
  else if Decimal.maxWord32 < third then .error (.badStream (.thirdField third number))
  else .ok (entryOf number kind second third)

/-- Reads so many records, the first of them for a given object number, behind the entries in `acc`,
    last one first. Answers with the entries, last one first, and the data that is left. -/
def decodeRange (w : FieldWidths) (acc : List (Key × Entry)) (number : Nat) (data : Bytes) :
    (count : Nat) → Except Error (List (Key × Entry) × Bytes)
  | 0 => .ok (acc, data)
  | count + 1 =>
    let record := data.take w.total
    if record.length < w.total then .error (.badStream .outOfRecords)
    else
      match decodeRecord w number record with
      | .error e => .error e
      | .ok entry =>
        decodeRange w (entry.toList ++ acc) (number + 1) (data.drop w.total) count

/-- Reads the records of several ranges. -/
def decodeRanges (w : FieldWidths) (acc : List (Key × Entry)) (data : Bytes) :
    List (Nat × Nat) → Except Error (List (Key × Entry))
  | [] => .ok acc.reverse
  | (start, count) :: rest =>
    match decodeRange w acc start data count with
    | .error e => .error e
    | .ok (acc, data) => decodeRanges w acc data rest

/-- Reads the records in decoded data, in order. Data behind the last record is ignored. -/
def decodeEntries (l : Layout) (data : Bytes) : Except Error (List (Key × Entry)) :=
  if l.widths.total = 0 then .error (.badStream .emptyRecords)
  else
    match l.expectedLength with
    | .error e => .error e
    | .ok expected =>
      if data.length < expected then .error (.badStream (.shortData data.length expected))
      else decodeRanges l.widths [] data l.index

end Layout

end CrossReference
