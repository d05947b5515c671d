import CrossReference.Error

set_option autoImplicit false

/-! # Trailers

Each section brings a trailer. Merged from the newest to the oldest, they make one trailer for the
document: a name has the value of the first trailer that gives it one. Names that describe a section
and not the document are left out. A trailer also remembers where its parts stood. -/

namespace CrossReference

/-- The trailer of a document: its entries, and the offsets of the trailers merged into it. -/
structure Trailer where
  entries : Dict Object := .empty
  offsets : List Nat := []

namespace Trailer

/-- The names that describe a section. -/
def sectionNames : List Name :=
  ["Prev", "XRefStm", "Type", "W", "Index", "Length", "Filter", "DecodeParms"]

/-- The trailer before anything is merged into it. -/
def empty : Trailer := {}

/-! ## Merging -/

/-- Gives a name a value if it describes the document and has none yet. -/
def offer (t : Trailer) (n : Name) (value : Object) : Trailer :=
  if sectionNames.contains n then t else { t with entries := t.entries.insertNew n value }

/-- Takes over what is missing from another dictionary. -/
def fillMissing (t : Trailer) (d : Dict Object) : Trailer :=
  d.entries.foldl (fun t e => t.offer e.1 e.2) t

/-- Takes over what is missing from a trailer that stood at an offset. -/
def merge (t : Trailer) (d : Dict Object) (offset : Nat) : Trailer :=
  let filled := t.fillMissing d
  if t.offsets.contains offset then filled else { filled with offsets := t.offsets ++ [offset] }

/-- Gives a name a value, whether it had one before or not. -/
def set (t : Trailer) (n : Name) (value : Object) : Trailer :=
  { t with entries := t.entries.insert n value }

/-! ## What a trailer says -/

/-- The value of a name. -/
def get? (t : Trailer) (n : Name) : Option Object := t.entries.get? n

@[simp] theorem get?_set (t : Trailer) (n m : Name) (value : Object) :
    (t.set n value).get? m = if m = n then some value else t.get? m :=
  Dict.get?_insert t.entries n m value

theorem get?_offer (t : Trailer) (n m : Name) (value : Object) :
    (t.offer n value).get? m =
      (t.get? m).or (if m = n ∧ m ∉ sectionNames then some value else none) := by
  unfold offer
  split
  · rename_i h
    have hn : n ∈ sectionNames := by simpa using h
    have : ¬(m = n ∧ m ∉ sectionNames) := fun ⟨he, hm⟩ => hm (he ▸ hn)
    simp [this]
  · rename_i h
    have hn : n ∉ sectionNames := by simpa using h
    rw [get?, Dict.get?_insertNew]
    by_cases he : m = n
    · subst he
      simp [hn, get?]
    · simp [he, get?]

/-- One more than the highest object number. -/
def size (t : Trailer) : Except Error Nat :=
  match (t.get? "Size").bind Object.nat? with
  | some n => .ok n
  | none => .error (.missingKey "Size")

/-- The key of the document catalog. -/
def root (t : Trailer) : Except Error Key :=
  match (t.get? "Root").bind Object.reference? with
  | some k => .ok k
  | none => .error (.missingKey "Root")

/-- The key of the information dictionary. -/
def info? (t : Trailer) : Option Key := (t.get? "Info").bind Object.reference?

/-- The identifiers of the document. -/
def id? (t : Trailer) : Option Object := t.get? "ID"

/-- Whether the document is encrypted. -/
def isEncrypted (t : Trailer) : Bool := t.entries.contains "Encrypt"

/-- The key of the encryption dictionary. -/
def encrypt? (t : Trailer) : Option Key := (t.get? "Encrypt").bind Object.reference?

/-- Fails if an entry is missing that every trailer must have. -/
def validate (t : Trailer) : Except Error Unit := do
  let _ ← t.size
  let _ ← t.root

end Trailer

end CrossReference
