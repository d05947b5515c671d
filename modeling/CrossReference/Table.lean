import CrossReference.Object
import CrossReference.OrderedMap

set_option autoImplicit false

/-! # Cross-reference tables

A table says for each key where its object is. Entries are added and never replaced: the first one
for a key stays. Sections are read from the newest to the oldest, so the first entry is the one that
counts. Beside its entries a table knows the highest object number that was ever added; taking an
entry away does not lower it. -/

namespace CrossReference

namespace Key

theorem lt_def {a b : Key} :
    a < b ↔ a.number < b.number ∨ (a.number = b.number ∧ a.generation < b.generation) := Iff.rfl

instance : OrderedKey Key where
  irrefl _ := by simp [lt_def]
  trans := by
    intro a b c
    simp only [lt_def]
    omega
  connected := by
    intro a b
    obtain ⟨m, g⟩ := a
    obtain ⟨n, h⟩ := b
    simp only [lt_def, Key.mk.injEq]
    omega

end Key

/-! ## Entries -/

/-- Where an object is. -/
inductive Entry where
  /-- Nowhere: the slot is not used, and the list of such slots goes on with this number. -/
  | free (next : Nat)
  /-- At an offset of the document. -/
  | direct (offset : Nat)
  /-- In an object stream, at an index. -/
  | compressed (stream index : Nat)
deriving DecidableEq, Repr

namespace Entry

/-- Whether an entry locates an object. -/
def isInUse : Entry → Bool
  | free _ => false
  | _ => true

/-- The offset of an object that stands in the document itself. -/
def offset? : Entry → Option Nat
  | direct offset => some offset
  | _ => none

end Entry

/-! ## Tables -/

/-- A table: its entries, and the highest object number that was ever added. -/
structure Table where
  entries : OrderedMap Key Entry := .empty
  highest : Option Nat := none
deriving DecidableEq

namespace Table

/-- The table without entries. -/
def empty : Table := {}

/-- The entry of a key. -/
def get? (t : Table) (k : Key) : Option Entry := t.entries.get? k

/-- Whether a key has an entry. -/
def contains (t : Table) (k : Key) : Bool := t.entries.contains k

/-- How many entries there are. -/
def size (t : Table) : Nat := t.entries.size

/-- Whether there is no entry. -/
def isEmpty (t : Table) : Bool := t.entries.entries.isEmpty

/-- The entries in the order of their keys. -/
def toList (t : Table) : List (Key × Entry) := t.entries.entries

/-- The highest object number that was ever added; zero for a new table. -/
def highestNumber (t : Table) : Nat := t.highest.getD 0

/-- Adds an entry unless its key has one. -/
def add (t : Table) (k : Key) (e : Entry) : Table :=
  if t.contains k then t
  else
    { entries := t.entries.insertNew k e
      highest := some (match t.highest with
        | none => k.number
        | some n => max n k.number) }

/-- Adds several entries in order. -/
def addAll (t : Table) (entries : List (Key × Entry)) : Table :=
  entries.foldl (fun t e => t.add e.1 e.2) t

/-- The table of the first entry for each key. -/
def ofList (entries : List (Key × Entry)) : Table := empty.addAll entries

/-- Adds the entries of another table. -/
def merge (t other : Table) : Table := t.addAll other.toList

/-- The entry of an object number with the highest generation. -/
def latest? (t : Table) (number : Nat) : Option (Key × Entry) :=
  (t.toList.filter (·.1.number = number)).getLast?

/-- Whether any entry locates an object. -/
def hasInUse (t : Table) : Bool := t.toList.any (·.2.isInUse)

/-- The keys of objects that stand in the document itself, with their offsets, in order. -/
def directOffsets (t : Table) : List (Key × Nat) :=
  t.toList.filterMap fun e => e.2.offset?.map (e.1, ·)

/-- Moves an object that stands in the document itself to another offset. -/
def relocate (t : Table) (k : Key) (offset : Nat) : Table :=
  { t with
    entries := t.entries.adjust k fun
      | .direct _ => .direct offset
      | other => other }

/-- Takes an entry away. -/
def remove (t : Table) (k : Key) : Table := { t with entries := t.entries.erase k }

/-! ## What the operations do to the view -/

@[simp] theorem get?_empty (k : Key) : empty.get? k = none := rfl

/-- An entry is added where there is none, and nothing else changes. -/
theorem get?_add (t : Table) (k j : Key) (e : Entry) :
    (t.add k e).get? j = (t.get? j).or (if j = k then some e else none) := by
  unfold add
  split
  · rename_i h
    have hk : (t.get? k).isSome := h
    cases hj : t.get? j with
    | some v => simp
    | none =>
      have hne : j ≠ k := fun he => by simp [← he, hj] at hk
      simp [hne]
  · exact OrderedMap.get?_insertNew t.entries k j e

@[simp] theorem get?_remove (t : Table) (k j : Key) :
    (t.remove k).get? j = if j = k then none else t.get? j :=
  OrderedMap.get?_erase t.entries k j

/-- What a list of entries in order adds for a key is the first of them that is for it. -/
theorem get?_addAll (t : Table) (entries : List (Key × Entry)) (k : Key) :
    (t.addAll entries).get? k = (t.get? k).or (OrderedMap.lookup k entries) := by
  induction entries generalizing t with
  | nil => simp [addAll, OrderedMap.lookup]
  | cons e rest ih =>
    have hstep : t.addAll (e :: rest) = (t.add e.1 e.2).addAll rest := rfl
    rw [hstep, ih, get?_add, Option.or_assoc]
    congr 1
    by_cases h : k = e.1 <;> simp [OrderedMap.lookup, h]

/-- Merging keeps every entry and adds those of the other table where there is none. -/
theorem get?_merge (t other : Table) (k : Key) :
    (t.merge other).get? k = (t.get? k).or (other.get? k) :=
  get?_addAll t other.toList k

end Table

end CrossReference
