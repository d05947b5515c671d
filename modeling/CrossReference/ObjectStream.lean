import CrossReference.Object.Reader
import CrossReference.Filter.Pipeline

set_option autoImplicit false

/-! # Object streams

An object stream holds objects inside its data. The data begins with a header that lists, for each
member, its object number and where it starts, counted from the first object on. The members
themselves are read one at a time and know nothing of each other. -/

namespace CrossReference

/-- A decoded object stream. -/
structure ObjectStream where
  data : Bytes
  /-- Where the first object starts. -/
  first : Nat
  /-- The object number and the relative offset of each member, in order. -/
  members : List (Nat × Nat)

namespace ObjectStream

/-- Reads the number and the offset of a member. -/
def member : Reader (Nat × Nat) := do
  let number ← Reader.integer
  let offset ← Reader.integer
  if 0 ≤ number && 0 ≤ offset then return (number.toNat, offset.toNat)
  else Reader.fail .negativeMember

/-- Reads so many members behind those in `acc`, last one first. A reader that is not pedantic keeps
    the members in front of a fault. -/
def membersFrom (pedantic : Bool) (acc : List (Nat × Nat)) (c : Cursor) :
    (count : Nat) → Except Error (List (Nat × Nat))
  | 0 => .ok acc.reverse
  | count + 1 =>
    match member c with
    | .ok m c => membersFrom pedantic (m :: acc) c count
    | .error e _ => if pedantic then .error e else .ok acc.reverse

/-- The number that a dictionary must give to a name, not a negative one. -/
def requiredNat (entries : Dict Object) (n : Name) : Except Error Nat :=
  match (entries.get? n).bind Object.nat? with
  | some value => .ok value
  | none => .error (.missingKey n)

/-- Opens the object stream with a given dictionary and data. -/
def ofStream (tolerance : Tolerance) (entries : Dict Object) (data : Bytes) :
    Except Error ObjectStream := do
  let count ← requiredNat entries "N"
  let first ← requiredNat entries "First"
  let decoded ← Filter.decodeStream entries data
  let members ← membersFrom tolerance.pedantic [] (.start decoded) count
  return { data := decoded, first, members }

/-- How many members there are. -/
def size (s : ObjectStream) : Nat := s.members.length

/-- The object numbers of the members, in order. -/
def numbers (s : ObjectStream) : List Nat := s.members.map (·.1)

/-- Reads the member at an index. -/
def object (s : ObjectStream) (tolerance : Tolerance) (index : Nat) : Except Error Object :=
  match s.members[index]? with
  | none => .error (.malformed 0 (.noMember index))
  | some (number, relative) =>
    let offset := s.first + relative
    match Cursor.seek s.data offset with
    | .error _ => .error (.malformed offset (.memberOutside number))
    | .ok c =>
      match Object.read tolerance c with
      | .ok x _ => .ok x
      | .error e _ => .error e

end ObjectStream

end CrossReference
