import CrossReference.Token
import CrossReference.Filter

set_option autoImplicit false

/-! # Errors

What can go wrong, by cause. The wording is a function of the cause, in one place for each kind of
error, so what the readers decide can be reasoned about without looking at texts. -/

namespace CrossReference

/-! ## Causes -/

/-- What a reader expected to find. -/
inductive Expected where
  | integer
  | keyword (word : Bytes)
  | dictOpen
  | dictKey
  | object

/-- What is wrong with the text of a document at some position. -/
inductive SyntaxFault where
  /-- More bytes were asked for than remain. -/
  | shortage (wanted remaining : Nat)
  /-- A closing angle bracket without a second one. -/
  | loneAngle
  /-- A delimiter that begins no token. -/
  | strayDelimiter (b : UInt8)
  /-- A number sign in a name without two hexadecimal digits. -/
  | nameEscape
  /-- A literal string without its last parenthesis. -/
  | openString
  /-- A hexadecimal string without its closing bracket. -/
  | openHexString
  /-- A byte in a hexadecimal string that is no digit. -/
  | hexStringDigit
  /-- A number with a point but without digits. -/
  | realNumber (text : Bytes)
  /-- A number without digits, or beyond 64 bits. -/
  | integerNumber (text : Bytes)
  /-- An object header with numbers that no key can have. -/
  | objectHeader (number generation : Int)
  /-- Arrays and dictionaries nested deeper than allowed. -/
  | nesting (limit : Nat)
  /-- The text ends where an object should stand. -/
  | endOfFile
  /-- A stream whose length does not lead to its end. -/
  | streamLength
  /-- A stream whose end was not found. -/
  | noEndStream
  /-- A negative number in the header of an object stream. -/
  | negativeMember
  /-- An index beyond the members of an object stream. -/
  | noMember (index : Nat)
  /-- A member of an object stream that should stand beyond its data. -/
  | memberOutside (number : Nat)

/-- What is wrong with the data of a stream, or with the dictionary that describes it. -/
inductive StreamFault where
  /-- An item of a filter array that is no name. -/
  | filterItem
  /-- A filter entry that is neither a name nor an array. -/
  | filterEntry
  | unknownFilter (name : Name)
  | unsupportedFilter (filter : Filter)
  /-- Compressed data that ends before its first symbol. -/
  | flateIncomplete
  /-- Compressed data that breaks the rules of its format. -/
  | flateCorrupt
  | hexDigit (b : UInt8)
  | ascii85Byte (b : UInt8)
  /-- A last group of a single digit. -/
  | ascii85Tail
  /-- A group whose value exceeds 32 bits. -/
  | ascii85Overflow
  /-- A depth of components that the horizontal predictor does not know. -/
  | tiffDepth (bits : Nat)
  /-- A predictor row longer than the data. -/
  | predictorRow (columns available : Nat)
  /-- A row tag that names no predictor. -/
  | pngTag (tag : UInt8)
  /-- A negative size. -/
  | negativeSize (size : Int)
  /-- A number of field widths other than three. -/
  | widthCount (count : Nat)
  | badWidth (width : Object)
  /-- An index that is no array. -/
  | badIndex (index : Object)
  /-- An index with a start but without a count. -/
  | oddIndex (count : Nat)
  | badIndexPair (start count : Object)
  /-- An index that describes more records than can be counted. -/
  | tooManyRecords
  /-- Records without a single byte. -/
  | emptyRecords
  /-- Less data than the index and the widths describe. -/
  | shortData (held needed : Nat)
  /-- Fewer records than the index describes. -/
  | outOfRecords
  /-- An object number beyond 64 bits. -/
  | numberOverflow
  /-- A third field that no generation or index can have. -/
  | thirdField (value number : Nat)
  /-- An object that should be a stream. -/
  | notStream (key : Key) (offset : Nat) (found : Object)
  /-- A stream that holds no cross-reference data. -/
  | notXrefStream (key : Key) (offset : Nat) (type : Option Name)

/-- Why a reading failed. -/
inductive Error where
  /-- A fault in the text, at the position where the reader stopped. -/
  | malformed (position : Nat) (fault : SyntaxFault)
  /-- Some other token than the expected one. -/
  | unexpected (expected : Expected) (found : Token)
  /-- A dictionary without an entry that it must have. -/
  | missingKey (name : Name)
  /-- Cross-reference data of which nothing can be used. -/
  | unusableTable
  /-- A table without a trailer. -/
  | noTrailer
  /-- An offset beyond the end of the document. -/
  | outside (offset length : Nat)
  /-- A stream that cannot be decoded. -/
  | badStream (fault : StreamFault)
  /-- A document of so many bytes that holds no object definition. -/
  | nothingFound (length : Nat)

/-! ## Wording -/

/-- How a message names what was expected. -/
def Expected.describe : Expected → String
  | integer => "integer"
  | keyword word => s!"keyword '{latin1 word}'"
  | dictOpen => "<<"
  | dictKey => "dictionary key (name) or >>"
  | object => "PDF object"

/-- The wording of a fault in the text. -/
def SyntaxFault.message : SyntaxFault → String
  | shortage wanted remaining => s!"Requested {wanted} bytes but only {remaining} remain"
  | loneAngle => "Expected '>' after '>'"
  | strayDelimiter b => s!"Unexpected character: {latin1Char b}"
  | nameEscape => "Invalid hex code in name"
  | openString => "Unterminated string"
  | openHexString => "Unterminated hex string"
  | hexStringDigit => "Invalid character in hex string"
  | realNumber text => s!"Invalid real number: '{latin1 text}'"
  | integerNumber text => s!"Invalid integer: '{latin1 text}'"
  | objectHeader number generation => s!"Invalid object header {number} {generation} obj"
  | nesting limit => s!"Maximum nesting depth exceeded (limit: {limit})"
  | endOfFile => "Unexpected end of file"
  | streamLength => "Stream /Length does not match the stream data"
  | noEndStream => "Could not find endstream"
  | negativeMember => "Negative entry in object stream header"
  | noMember index => s!"Object stream has no member at index {index}"
  | memberOutside number => s!"Object {number} lies outside its object stream"

/-- How a message shows the type of a stream. -/
def describeType : Option Name → String
  | none => "None"
  | some n => s!"Some({n.describe})"

/-- The wording of a fault in stream data. -/
def StreamFault.message : StreamFault → String
  | filterItem => "Invalid filter in array"
  | filterEntry => "Invalid Filter type"
  | unknownFilter name => s!"Unknown filter: {latin1 name.bytes}"
  | unsupportedFilter filter => s!"Filter {filter.longName} is not supported"
  | flateIncomplete => "Flate decode error: incomplete deflate stream"
  | flateCorrupt => "Flate decode error: corrupt deflate stream"
  | hexDigit b => s!"Invalid hex digit: {latin1Char b}"
  | ascii85Byte b => s!"Invalid ASCII85 character: {latin1Char b}"
  | ascii85Tail => "Invalid ASCII85 final group"
  | ascii85Overflow => "ASCII85 group overflow"
  | tiffDepth bits => s!"TIFF predictor with {bits} bits per component is not supported"
  | predictorRow columns available =>
    s!"Predictor row of {columns} columns exceeds the {available} bytes of stream data"
  | pngTag tag => s!"Unknown PNG predictor type: {tag.toNat}"
  | negativeSize size => s!"Negative /Size {size}"
  | widthCount count => s!"/W must have 3 entries, found {count}"
  | badWidth width => s!"Invalid /W entry {width.describe}"
  | badIndex index => s!"Invalid /Index {index.describe}"
  | oddIndex count => s!"/Index has an odd number of entries ({count})"
  | badIndexPair start count => s!"Invalid /Index pair {start.describe} {count.describe}"
  | tooManyRecords => "/Index describes too many records"
  | emptyRecords => "/W describes empty records"
  | shortData held needed => s!"Stream holds {held} bytes but /Index and /W need {needed}"
  | outOfRecords => "Ran out of xref stream records"
  | numberOverflow => "Object number overflow in /Index"
  | thirdField value number => s!"Third field {value} of object {number} does not fit 32 bits"
  | notStream key offset found =>
    s!"Object {key.text} at {offset} is not a stream: {found.describe}"
  | notXrefStream key offset type =>
    s!"Object {key.text} at {offset} is not an xref stream (type {describeType type})"

/-- The wording of an error. -/
def Error.message : Error → String
  | malformed position fault => s!"Syntax error at position {position}: {fault.message}"
  | unexpected expected found =>
    s!"Unexpected token: expected {expected.describe}, found {found.describe}"
  | missingKey name => s!"Missing required key: {latin1 name.bytes}"
  | unusableTable => "Invalid xref table"
  | noTrailer => "Invalid trailer"
  | outside offset length => s!"Offset {offset} is outside the file (length {length})"
  | badStream fault => s!"Stream decode error: {fault.message}"
  | nothingFound length =>
    s!"No object definitions could be recovered: no object definitions in {length} bytes"

end CrossReference
