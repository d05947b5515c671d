import CrossReference.Object
import CrossReference.Decimal.Written
import CrossReference.Text.Quoted

set_option autoImplicit false

/-! # Objects in messages

A message that complains about an object shows what it is: its kind, and its value in parentheses.
Strings are shown as the numbers of their bytes, names as quoted text.

The order in which a dictionary's entries are shown is not part of what a message promises. Here it
is the order in which the keys were added, so that equal objects are shown alike. -/

namespace CrossReference

/-- Parts with a comma between them, inside brackets. -/
def describeList (parts : List String) : String := "[" ++ ", ".intercalate parts ++ "]"

/-- Bytes as a list of their numbers. -/
def describeBytes (bytes : Bytes) : String := describeList (bytes.map fun b => toString b.toNat)

/-- The texts of a dictionary's entries inside braces. -/
def describeDict (parts : List String) : String :=
  "PdfDictionary(\x7b" ++ ", ".intercalate parts ++ "\x7d)"

/-- A name as quoted text. -/
def Name.describe (n : Name) : String := Text.quote n.chars

namespace Object

mutual

/-- The text that shows an object. -/
def describe : Object → String
  | null => "Null"
  | bool value => s!"Boolean({value})"
  | integer value => s!"Integer({value})"
  | real value => s!"Real({Decimal.write Decimal.messageStyle value})"
  | string bytes => s!"String(PdfString({describeBytes bytes}))"
  | name value => s!"Name(PdfName({value.describe}))"
  | array items => s!"Array(PdfArray({describeList (describeItems items)}))"
  | dict ⟨entries⟩ => s!"Dictionary({describeDict (describeEntries entries)})"
  | stream ⟨entries⟩ data =>
    s!"Stream(PdfStream \x7b dict: {describeDict (describeEntries entries)}, " ++
      s!"data: {describeBytes data} \x7d)"
  | reference key =>
    s!"Reference(ObjectKey \x7b number: {key.number}, generation: {key.generation} \x7d)"

/-- The texts of several objects. -/
def describeItems : List Object → List String
  | [] => []
  | x :: rest => x.describe :: describeItems rest

/-- The texts of a dictionary's entries. -/
def describeEntries : List (Name × Object) → List String
  | [] => []
  | (n, x) :: rest => s!"PdfName({n.describe}): {x.describe}" :: describeEntries rest

end

end Object

end CrossReference
