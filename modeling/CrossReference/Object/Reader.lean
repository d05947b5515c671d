import CrossReference.Token.Reader
import CrossReference.Options

set_option autoImplicit false

/-! # Reading objects

An object is read from its first token on. Arrays and dictionaries hold objects, so their readers
take the reader of a nested object as an argument, and the recursion is on the nesting that is still
allowed: a document cannot make it deeper. Inside an array or a dictionary every round takes at
least one byte, so the bytes left at its start bound the rounds; when none are left, the next token
is the end of the document.

Two objects need a look ahead. An integer may begin a reference `number generation R`, and a
dictionary may be that of a stream. If what follows is something else, the reader stays in front of
it, whatever it is. -/

namespace CrossReference

namespace Reader

/-! ## References -/

/-- The rest of a reference that an integer begins. -/
def reference? (value : Int) (c : Cursor) : Option (Key × Cursor) :=
  match token c with
  | .ok (.integer generation) c =>
    match key? value generation, token c with
    | some key, .ok (.keyword word) c => if word = ascii "R" then some (key, c) else none
    | _, _ => none
  | _ => none

/-- Reads on behind an integer, which may be the first part of a reference. -/
def integerOrReference (value : Int) : Reader Object := fun c =>
  match reference? value c with
  | some (key, c) => .ok (.reference key) c
  | none => .ok (.integer value) c

/-! ## Stream data -/

/-- The length that a stream's dictionary gives directly. -/
def declaredLength? (entries : Dict Object) : Option Nat := (entries.get? "Length").bind Object.nat?

/-- The data of a stream with a declared length, if so many bytes are there and the stream ends
    behind them. -/
def declaredData? (length : Nat) (c : Cursor) : Option (Bytes × Cursor) :=
  let data := c.rest.take length
  if data.length < length then none
  else
    match token (c.advance length) with
    | .ok (.reserved .endStream) c => some (data, c)
    | _ => none

/-- Where a reader that trusts only the declared length gives up. -/
def behindDeclared (entries : Dict Object) (c : Cursor) : Cursor :=
  match declaredLength? entries with
  | some length => if (c.rest.take length).length < length then c else c.advance length
  | none => c

/-- Bytes without the end of line that stands last, if one does. -/
def dropLineEnd (bytes : Bytes) : Bytes :=
  let withoutFeed := match bytes.reverse with
    | 0x0A :: rest => rest
    | all => all
  match withoutFeed with
  | 0x0D :: rest => rest.reverse
  | all => all.reverse

/-- Reads stream data up to the first `endstream`. -/
def searchedData (limit : Nat) : Reader Bytes := fun c =>
  match c.find? Reserved.endStream.spelling limit with
  | none => fail .noEndStream c
  | some endOffset =>
    let length := endOffset - c.position
    match expect Reserved.endStream.spelling (c.advance length) with
    | .ok _ c' => .ok (dropLineEnd (c.rest.take length)) c'
    | .error e c' => .error e c'

/-- Reads the data of a stream behind the keyword `stream` and the end of its line. The declared
    length is right if the stream ends behind it. If it is not right, lenient readers search. -/
def streamData (tolerance : Tolerance) (entries : Dict Object) : Reader Bytes := fun c =>
  let c := c.advance (Bytes.lineEndLength c.rest)
  match (declaredLength? entries).bind (declaredData? · c) with
  | some (data, c) => .ok data c
  | none =>
    if tolerance.lenientStreams then searchedData tolerance.streamSearchLimit c
    else if entries.contains "Length" then
      .error (.malformed c.position .streamLength) (behindDeclared entries c)
    else .error (.missingKey "Length") (behindDeclared entries c)

/-- Reads on behind a dictionary, which may be that of a stream. -/
def dictOrStream (tolerance : Tolerance) (entries : Dict Object) : Reader Object := fun c =>
  match significant c with
  | .ok (.reserved .stream) c =>
    match streamData tolerance entries c with
    | .ok data c => .ok (.stream entries data) c
    | .error e c => .error e c
  | _ => .ok (.dict entries) c

/-! ## Arrays and dictionaries -/

/-- Reads the items of an array up to its end, in at most so many rounds, with the items before
    them, last item first. -/
def items (item : Token → Reader Object) (acc : List Object) : Nat → Reader (List Object)
  | 0 => fail .endOfFile
  | rounds + 1 => do
    match ← significant with
    | .arrayClose => return acc.reverse
    | t => items item ((← item t) :: acc) rounds

/-- Reads the entries of a dictionary up to its end, in at most so many rounds, behind the entries
    before them. Of two values for one name the last counts. -/
def entries (value : Token → Reader Object) (acc : Dict Object) : Nat → Reader (Dict Object)
  | 0 => throw (.unexpected .dictKey .eof)
  | rounds + 1 => do
    match ← significant with
    | .dictClose => return acc
    | .name n => entries value (acc.insert n (← value (← significant))) rounds
    | other => throw (.unexpected .dictKey other)

/-- Runs a loop that takes a byte in every round with as many rounds as there are bytes. -/
def rounds {α : Type} (loop : Nat → Reader α) : Reader α := fun c => loop c.rest.length c

end Reader

/-! ## Objects -/

namespace Object

/-- Reads the object that begins with a token, nested at most so deep. -/
def ofToken (tolerance : Tolerance) (nesting : Nat) (t : Token) : Reader Object :=
  match t with
  | .null => return .null
  | .bool value => return .bool value
  | .integer value => Reader.integerOrReference value
  | .real value => return .real value
  | .string bytes => return .string bytes
  | .name value => return .name value
  | .arrayOpen =>
    match nesting with
    | 0 => Reader.fail (.nesting tolerance.maxNesting)
    | nesting + 1 => do
      return .array (← Reader.rounds (Reader.items (ofToken tolerance nesting) []))
  | .dictOpen =>
    match nesting with
    | 0 => Reader.fail (.nesting tolerance.maxNesting)
    | nesting + 1 => do
      Reader.dictOrStream tolerance
        (← Reader.rounds (Reader.entries (ofToken tolerance nesting) .empty))
  | .eof => Reader.fail .endOfFile
  | other => throw (.unexpected .object other)

/-- Reads an object. -/
def read (tolerance : Tolerance) : Reader Object := do
  ofToken tolerance tolerance.maxNesting (← Reader.significant)

/-- Reads a dictionary, and no stream data behind it. -/
def readDict (tolerance : Tolerance) : Reader (Dict Object) := do
  match ← Reader.significant with
  | .dictOpen =>
    Reader.rounds (Reader.entries (ofToken tolerance (tolerance.maxNesting - 1)) .empty)
  | other => throw (.unexpected .dictOpen other)

/-- Reads an object definition: its header, the object, and the keyword `endobj` if it follows. -/
def readDefinition (tolerance : Tolerance) : Reader (Key × Object) := do
  let key ← Reader.header
  let object ← read tolerance
  fun c =>
    match Reader.token c with
    | .ok (.reserved .endObj) c => .ok (key, object) c
    | _ => .ok (key, object) c

end Object

end CrossReference
