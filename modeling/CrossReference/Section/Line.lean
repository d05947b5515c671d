import CrossReference.Decimal.Numeral
import CrossReference.Table
import CrossReference.Text.Blank
import CrossReference.Text.Quoted
import CrossReference.Text.Utf8

set_option autoImplicit false

/-! # Lines of a table

The table form of a section consists of lines: a header with a first object number and a count, and
a record for each of the numbers. A line is split into words; it must be UTF-8 to be of use. -/

namespace CrossReference.Section

/-- The words of a line. -/
def wordsOf? (line : Bytes) : Option (List (List Char)) := (Text.Utf8.decode? line).map Text.words

/-- A line as a message shows it. -/
def showLine (line : Bytes) : String := Text.quote (Text.Utf8.decodeLossy line)

/-- Reads a number of a header. A plus sign in front of it does not matter. -/
def headerNumber? : List Char → Option Nat
  | '+' :: digits => Decimal.number? Decimal.maxWord64 digits
  | digits => Decimal.number? Decimal.maxWord64 digits

/-- Reads the header of a subsection: its first object number and its count. -/
def headerLine? (line : Bytes) : Option (Nat × Nat) :=
  match wordsOf? line with
  | some [start, count] => do return (← headerNumber? start, ← headerNumber? count)
  | _ => none

/-- Whether a record's mark says that the object is in use. -/
def inUseMark? : List Char → Option Bool
  | ['n'] => some true
  | ['f'] => some false
  | _ => none

/-- Whether the fields of a record have the form that the format lays down: ten digits and five. -/
def hasFixedWidths (field generation : List Char) : Bool :=
  field.length = 10 && generation.length = 5

/-- Reads a record: a generation and an entry. Pedantic readers insist on the widths. -/
def recordLine? (pedantic : Bool) (line : Bytes) : Option (Nat × Entry) :=
  match wordsOf? line with
  | some [field, generation, mark] => do
    if pedantic && !hasFixedWidths field generation then none
    let field ← Decimal.number? Decimal.maxWord64 field
    let generation ← Decimal.number? Decimal.maxWord32 generation
    let inUse ← inUseMark? mark
    return (generation, if inUse then .direct field else .free field)
  | _ => none

end CrossReference.Section
