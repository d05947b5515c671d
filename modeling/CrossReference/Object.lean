import CrossReference.Byte
import CrossReference.Decimal.Binary64

set_option autoImplicit false

/-! # Objects

The values that a PDF document is made of. An object is addressed by a `Key`, its number and its
generation, and other objects refer to it by that key. A dictionary keeps its entries in the order
of their first appearance; its view is `Dict.get?`, and the laws beside each operation say what it
does to this view. -/

namespace CrossReference

/-! ## Keys -/

/-- The identity of an object slot: its number, a word of 64 bits, and its generation, one of 32. -/
structure Key where
  number : Nat
  generation : Nat
deriving DecidableEq, Repr

namespace Key

/-- Keys are ordered by number, then by generation. -/
instance : LT Key where
  lt a b := a.number < b.number ∨ (a.number = b.number ∧ a.generation < b.generation)

instance (a b : Key) : Decidable (a < b) :=
  inferInstanceAs (Decidable (a.number < b.number ∨ _))

/-- The reference that stands for a key in a document. -/
def text (k : Key) : String := s!"{k.number} {k.generation} R"

instance : ToString Key := ⟨text⟩

end Key

/-! ## Names -/

/-- A name, without its solidus and with its escapes resolved. -/
structure Name where
  bytes : Bytes
deriving DecidableEq, Repr

namespace Name

/-- The name with a spelling of characters below U+0100. -/
def ofString (spelling : String) : Name := ⟨ascii spelling⟩

instance : Coe String Name := ⟨ofString⟩

/-- A name's characters. -/
def chars (n : Name) : List Char := n.bytes.map latin1Char

end Name

/-! ## Dictionaries -/

/-- A dictionary: names with values, each name once. -/
structure Dict (α : Type) where
  entries : List (Name × α) := []

namespace Dict

variable {α : Type}

/-- The dictionary without entries. -/
def empty : Dict α := ⟨[]⟩

/-- The value that a list of entries gives to a name: that of the first entry for it. -/
def lookup (n : Name) : List (Name × α) → Option α
  | [] => none
  | (m, value) :: rest => if n = m then some value else lookup n rest

/-- The value of a name. -/
def get? (d : Dict α) (n : Name) : Option α := lookup n d.entries

/-- Whether a name has a value. -/
def contains (d : Dict α) (n : Name) : Bool := (d.get? n).isSome

/-- Puts a value in the place of a name's old one, or else at the end. -/
def insertEntry (n : Name) (value : α) : List (Name × α) → List (Name × α)
  | [] => [(n, value)]
  | (m, old) :: rest =>
    if n = m then (n, value) :: rest else (m, old) :: insertEntry n value rest

/-- Gives a name a value, whether it had one before or not. -/
def insert (d : Dict α) (n : Name) (value : α) : Dict α := ⟨insertEntry n value d.entries⟩

/-- Gives a name a value unless it has one. -/
def insertNew (d : Dict α) (n : Name) (value : α) : Dict α :=
  if d.contains n then d else ⟨d.entries ++ [(n, value)]⟩

/-- How many entries there are. -/
def size (d : Dict α) : Nat := d.entries.length

/-! ### What the operations do to the view -/

@[simp] theorem get?_empty (n : Name) : (empty : Dict α).get? n = none := rfl

theorem lookup_insertEntry (n m : Name) (value : α) (entries : List (Name × α)) :
    lookup m (insertEntry n value entries) = if m = n then some value else lookup m entries := by
  induction entries with
  | nil => rfl
  | cons e rest ih => grind [insertEntry, lookup]

theorem lookup_append (n : Name) (xs ys : List (Name × α)) :
    lookup n (xs ++ ys) = (lookup n xs).or (lookup n ys) := by
  induction xs with
  | nil => rfl
  | cons e rest ih => grind [lookup]

@[simp] theorem get?_insert (d : Dict α) (n m : Name) (value : α) :
    (d.insert n value).get? m = if m = n then some value else d.get? m :=
  lookup_insertEntry n m value d.entries

theorem get?_insertNew (d : Dict α) (n m : Name) (value : α) :
    (d.insertNew n value).get? m = (d.get? m).or (if m = n then some value else none) := by
  unfold insertNew contains
  split
  · cases hm : d.get? m <;> grind
  · simp [get?, lookup, lookup_append]

end Dict

/-! ## Objects -/

/-- An object. A stream is a dictionary and the bytes that follow it, still encoded. -/
inductive Object where
  | null
  | bool (value : Bool)
  | integer (value : Int)
  | real (value : Binary64)
  | string (bytes : Bytes)
  | name (value : Name)
  | array (items : List Object)
  | dict (entries : Dict Object)
  | stream (entries : Dict Object) (data : Bytes)
  | reference (key : Key)

namespace Object

/-- Whether an object is the null object. -/
def isNull : Object → Bool
  | null => true
  | _ => false

/-- The value of an integer. -/
def int? : Object → Option Int
  | integer value => some value
  | _ => none

/-- The value of an integer that is not negative. -/
def nat? : Object → Option Nat
  | integer (.ofNat n) => some n
  | _ => none

/-- The value of a name. -/
def name? : Object → Option Name
  | name value => some value
  | _ => none

/-- The items of an array. -/
def array? : Object → Option (List Object)
  | array items => some items
  | _ => none

/-- The entries of a dictionary, or of a stream's dictionary. -/
def dict? : Object → Option (Dict Object)
  | dict entries => some entries
  | stream entries _ => some entries
  | _ => none

/-- The key that a reference names. -/
def reference? : Object → Option Key
  | reference key => some key
  | _ => none

end Object

namespace Dict

/-- The value of `/Type`, if it is a name. -/
def type? (d : Dict Object) : Option Name := (d.get? "Type").bind Object.name?

end Dict

end CrossReference
