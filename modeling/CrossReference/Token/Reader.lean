import CrossReference.Cursor

set_option autoImplicit false

/-! # Readers of tokens

The readers that ask for a token of some kind. A plain `token` may be a comment; `significant`
passes over comments. The reader of an object header asks for plain tokens: a comment inside a
header is not accepted. -/

namespace CrossReference.Reader

/-- Reads a token. -/
def token : Reader Token := fun c =>
  match Token.scan c.rest with
  | (.ok t, n) => .ok t (c.advance n)
  | (.error fault, n) => fail fault (c.advance n)

/-- Reads a token that is no comment. -/
def significant : Reader Token := fun c => token c.skipComments

/-- The next token, without moving. -/
def peekToken : Reader Token := fun c =>
  match token c with
  | .ok t _ => .ok t c
  | .error e _ => .error e c

/-- Reads an integer. -/
def integer : Reader Int := do
  match ← token with
  | .integer value => return value
  | other => throw (.unexpected .integer other)

/-- Reads a keyword with a given spelling. -/
def expect (word : Bytes) : Reader Unit := do
  let found ← token
  if found.keyword? = some word then return ()
  else throw (.unexpected (.keyword word) found)

/-- The key with a number and a generation, if they are in the ranges of a key. -/
def key? (number generation : Int) : Option Key :=
  if 0 ≤ number && 0 ≤ generation && generation ≤ Decimal.maxWord32 then
    some ⟨number.toNat, generation.toNat⟩
  else none

/-- Reads the header of an object definition, `number generation obj`. -/
def header : Reader Key := fun c =>
  let parts : Reader (Int × Int) := do
    let number ← integer
    let generation ← integer
    expect Reserved.obj.spelling
    return (number, generation)
  match parts c with
  | .error e c' => .error e c'
  | .ok (number, generation) c' =>
    match key? number generation with
    | some key => .ok key c'
    | none => .error (.malformed c.position (.objectHeader number generation)) c'

end CrossReference.Reader
