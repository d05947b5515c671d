import CrossReference.Filter.Flate
import CrossReference.Filter.Predictor

set_option autoImplicit false

/-! # Decoding a stream

The dictionary of a stream names the filters that its data went through, in the order in which they
are to be undone, and may give each of them parameters. The only parameters that matter here are
those of a predictor, which is undone right after its filter. -/

namespace CrossReference.Filter

/-- The names of a stream's filters; none at all if the data is not encoded. -/
def namesOf (entries : Dict Object) : Except StreamFault (List Name) :=
  match entries.get? "Filter" with
  | none | some .null => .ok []
  | some (.name n) => .ok [n]
  | some (.array items) =>
    items.mapM fun item =>
      match item.name? with
      | some n => .ok n
      | none => .error .filterItem
  | some _ => .error .filterEntry

/-- The parameters of the filter at an index. A lone dictionary belongs to the first filter. -/
def paramsAt? (entries : Dict Object) (index : Nat) : Option (Dict Object) :=
  match (entries.get? "DecodeParms").or (entries.get? "DP") with
  | some (.dict params) => if index = 0 then some params else none
  | some (.array items) =>
    match items[index]? with
    | some (.dict params) => some params
    | _ => none
  | _ => none

/-- Undoes a filter. -/
def apply (f : Filter) (data : Bytes) : Except StreamFault Bytes :=
  match f with
  | .flate => decodeFlate data
  | .asciiHex => decodeAsciiHex data
  | .ascii85 => decodeAscii85 data
  | other => .error (.unsupportedFilter other)

/-- Undoes the filter at an index, and its predictor. -/
def applyAt (entries : Dict Object) (index : Nat) (n : Name) (data : Bytes) :
    Except StreamFault Bytes := do
  let some f := ofName? n | .error (.unknownFilter n)
  let decoded ← f.apply data
  match (paramsAt? entries index).bind Predictor.ofParams? with
  | some predictor => predictor.decode decoded
  | none => return decoded

/-- Undoes several filters, the first of which stands at an index. -/
def applyFrom (entries : Dict Object) (index : Nat) : List Name → Bytes → Except StreamFault Bytes
  | [], data => .ok data
  | n :: rest, data => do applyFrom entries (index + 1) rest (← applyAt entries index n data)

/-- The data of a stream with a given dictionary, decoded. -/
def decodeStream (entries : Dict Object) (data : Bytes) : Except Error Bytes :=
  ((namesOf entries).bind (applyFrom entries 0 · data)).mapError .badStream

end CrossReference.Filter
