import CrossReference.Object.Describe

set_option autoImplicit false

/-! # Tokens

The words of the document syntax. A bare word is one of the reserved keywords, one of the values
`true`, `false` and `null`, or a keyword without a meaning of its own, such as the `R` of a
reference or plain rubbish. -/

namespace CrossReference

/-- The keywords that frame objects, streams and cross-reference sections. -/
inductive Reserved where
  | stream
  | endStream
  | obj
  | endObj
  | xref
  | trailer
  | startXref
deriving DecidableEq, Repr

namespace Reserved

/-- All reserved keywords. -/
def all : List Reserved := [stream, endStream, obj, endObj, xref, trailer, startXref]

/-- How a reserved keyword is written. -/
def spelling : Reserved → Bytes
  | stream => ascii "stream"
  | endStream => ascii "endstream"
  | obj => ascii "obj"
  | endObj => ascii "endobj"
  | xref => ascii "xref"
  | trailer => ascii "trailer"
  | startXref => ascii "startxref"

/-- How a reserved keyword is shown in messages. -/
def describe : Reserved → String
  | stream => "Stream"
  | endStream => "EndStream"
  | obj => "Obj"
  | endObj => "EndObj"
  | xref => "XRef"
  | trailer => "Trailer"
  | startXref => "StartXRef"

end Reserved

/-- A token. The end of the bytes is a token too. -/
inductive Token where
  | bool (value : Bool)
  | integer (value : Int)
  | real (value : Binary64)
  | string (bytes : Bytes)
  | name (value : Name)
  | arrayOpen
  | arrayClose
  | dictOpen
  | dictClose
  | null
  | reserved (word : Reserved)
  | keyword (word : Bytes)
  | comment (text : Bytes)
  | eof
deriving DecidableEq, Repr

namespace Token

/-- The token that a bare word is. -/
def ofWord (word : Bytes) : Token :=
  if word = ascii "true" then bool true
  else if word = ascii "false" then bool false
  else if word = ascii "null" then null
  else
    match Reserved.all.find? (·.spelling = word) with
    | some r => reserved r
    | none => keyword word

/-- The spelling of a keyword, reserved or not. -/
def keyword? : Token → Option Bytes
  | reserved word => some word.spelling
  | keyword word => some word
  | _ => none

/-- The text that shows a token in messages. -/
def describe : Token → String
  | bool value => s!"Boolean({value})"
  | integer value => s!"Integer({value})"
  | real value => s!"Real({Decimal.write Decimal.messageStyle value})"
  | string bytes => s!"String({describeBytes bytes})"
  | name value => s!"Name({value.describe})"
  | arrayOpen => "ArrayStart"
  | arrayClose => "ArrayEnd"
  | dictOpen => "DictStart"
  | dictClose => "DictEnd"
  | null => "Null"
  | reserved word => word.describe
  | keyword word => s!"Keyword({Text.quote (word.map latin1Char)})"
  | comment text => s!"Comment({Text.quote (text.map latin1Char)})"
  | eof => "Eof"

end Token

end CrossReference
