import CrossReference.Proofs.Token.Printed

set_option autoImplicit false

/-! # Objects that are printed

The canonical text of an object: numbers in decimal, strings in hexadecimal, names with escapes,
and single spaces between the items of arrays and dictionaries. It begins with the object's first
token (`lead`, `leadText`), and the reader of objects decides by that token what it makes of the
rest (`body`). -/

namespace CrossReference

open Decimal (digits)

/-! ## Printing -/

/-- What the canonical form leaves open: the case of hexadecimal digits, and the white space inside
    the brackets of arrays and of dictionaries. -/
structure PrintStyle where
  upperHex : Bool
  arrayPad : Bytes
  dictPad : Bytes
  arrayPad_white : ∀ b ∈ arrayPad, Byte.isWhite b = true
  dictPad_white : ∀ b ∈ dictPad, Byte.isWhite b = true

/-- Texts with a single space between them. -/
def spaced : List Bytes → Bytes
  | [] => []
  | text :: texts => text ++ texts.flatMap (0x20 :: ·)

/-- Texts with a single space between them, inside brackets. -/
def bracketed (opening pad closing : Bytes) (texts : List Bytes) : Bytes :=
  opening ++ (pad ++ (spaced texts ++ (pad ++ closing)))

namespace Object

mutual

/-- The canonical text of an object. Reals and streams have none. -/
def print (style : PrintStyle) : Object → Bytes
  | null => ascii "null"
  | bool value => ascii (toString value)
  | integer value => Token.printInteger value
  | real _ => []
  | string bytes => Token.printString style.upperHex bytes
  | name value => Token.printName style.upperHex value
  | array items => bracketed [0x5B] style.arrayPad [0x5D] (printItems style items)
  | dict ⟨entries⟩ =>
    bracketed [0x3C, 0x3C] style.dictPad [0x3E, 0x3E] (printEntries style entries)
  | stream _ _ => []
  | reference key => digits key.number ++ (0x20 :: digits key.generation ++ [0x20, 0x52])

/-- The texts of several objects. -/
def printItems (style : PrintStyle) : List Object → List Bytes
  | [] => []
  | x :: rest => x.print style :: printItems style rest

/-- The texts of a dictionary's entries. -/
def printEntries (style : PrintStyle) : List (Name × Object) → List Bytes
  | [] => []
  | (n, x) :: rest =>
    (Token.printName style.upperHex n ++ 0x20 :: x.print style) :: printEntries style rest

end

mutual

/-- How deep the arrays and dictionaries of an object are nested. -/
def depth : Object → Nat
  | array items => depthItems items + 1
  | dict ⟨entries⟩ => depthEntries entries + 1
  | stream ⟨entries⟩ _ => depthEntries entries + 1
  | _ => 0

/-- The greatest depth of several objects. -/
def depthItems : List Object → Nat
  | [] => 0
  | x :: rest => max x.depth (depthItems rest)

/-- The greatest depth of a dictionary's values. -/
def depthEntries : List (Name × Object) → Nat
  | [] => 0
  | (_, x) :: rest => max x.depth (depthEntries rest)

end

/-- The objects that have a canonical text: those without reals and streams in them, with integers
    and keys of the sizes that the syntax can hold, and with each name once in a dictionary. -/
inductive Printable : Object → Prop
  | null : Printable null
  | bool (value : Bool) : Printable (bool value)
  | integer {value : Int} (fits : Decimal.fitsSigned64 value = true) : Printable (integer value)
  | string (bytes : Bytes) : Printable (string bytes)
  | name (value : Name) : Printable (name value)
  | reference {key : Key} (number_le : key.number ≤ Decimal.maxSigned64)
      (generation_le : key.generation ≤ Decimal.maxWord32) : Printable (reference key)
  | array {items : List Object} (printable : ∀ x ∈ items, Printable x) : Printable (array items)
  | dict {entries : List (Name × Object)} (distinct : (entries.map Prod.fst).Nodup)
      (printable : ∀ e ∈ entries, Printable e.2) : Printable (dict ⟨entries⟩)

theorem printItems_eq (style : PrintStyle) (items : List Object) :
    printItems style items = items.map (print style) := by
  induction items with
  | nil => rfl
  | cons x rest ih => rw [printItems, ih, List.map_cons]

/-- A dictionary entry as it is printed. -/
def printEntry (style : PrintStyle) (e : Name × Object) : Bytes :=
  Token.printName style.upperHex e.1 ++ 0x20 :: e.2.print style

theorem printEntries_eq (style : PrintStyle) (entries : List (Name × Object)) :
    printEntries style entries = entries.map (printEntry style) := by
  induction entries with
  | nil => rfl
  | cons e rest ih => rw [printEntries, ih, List.map_cons]; rfl

theorem depthItems_le {n : Nat} {items : List Object} :
    depthItems items ≤ n ↔ ∀ x ∈ items, x.depth ≤ n := by
  induction items with
  | nil => simp [depthItems]
  | cons x rest ih => rw [depthItems, Nat.max_le, ih, List.forall_mem_cons]

theorem lt_depthItems {n : Nat} {items : List Object} :
    n < depthItems items ↔ ∃ x ∈ items, n < x.depth := by
  rw [← Nat.not_le, depthItems_le]
  simp

theorem depthEntries_le {n : Nat} {entries : List (Name × Object)} :
    depthEntries entries ≤ n ↔ ∀ e ∈ entries, e.2.depth ≤ n := by
  induction entries with
  | nil => simp [depthEntries]
  | cons e rest ih => rw [depthEntries, Nat.max_le, ih, List.forall_mem_cons]

theorem lt_depthEntries {n : Nat} {entries : List (Name × Object)} :
    n < depthEntries entries ↔ ∃ e ∈ entries, n < e.2.depth := by
  rw [← Nat.not_le, depthEntries_le]
  simp

/-! ## First tokens -/

/-- The first token of an object's text. -/
def lead : Object → Token
  | null => .null
  | bool value => .bool value
  | integer value => .integer value
  | real value => .real value
  | string bytes => .string bytes
  | name value => .name value
  | array _ => .arrayOpen
  | dict _ => .dictOpen
  | stream _ _ => .dictOpen
  | reference key => .integer key.number

/-- How the first token is printed. -/
def leadText (style : PrintStyle) : Object → Bytes
  | array _ => [0x5B]
  | dict _ => [0x3C, 0x3C]
  | reference key => digits key.number
  | x => x.print style

/-- What is printed behind the first token. -/
def body (style : PrintStyle) : Object → Bytes
  | array items => bracketed [] style.arrayPad [0x5D] (items.map (print style))
  | dict ⟨entries⟩ => bracketed [] style.dictPad [0x3E, 0x3E] (entries.map (printEntry style))
  | reference key => 0x20 :: digits key.generation ++ [0x20, 0x52]
  | _ => []

theorem print_eq (style : PrintStyle) (x : Object) :
    x.print style = x.leadText style ++ x.body style := by
  cases x with
  | array items => rw [print, printItems_eq]; rfl
  | dict d => rw [print, printEntries_eq]; rfl
  | reference key => rfl
  | _ => exact (List.append_nil _).symm

end Object

end CrossReference
