import CrossReference.Decimal.Numeral

set_option autoImplicit false

/-! # Words

Numbers are natural numbers almost everywhere. A step that is made in words of 64 bits answers
`none` if its result is not one, or if it shifts by as many places as a word has. -/

namespace CrossReference.Word

/-- How many bits a word has. -/
def bits : Nat := 64

/-- A number that is a word. -/
def ofNat (n : Nat) : Option Nat := if n ≤ Decimal.maxWord64 then some n else none

def add (a b : Nat) : Option Nat := ofNat (a + b)

def sub (a b : Nat) : Option Nat := if b ≤ a then some (a - b) else none

def mul (a b : Nat) : Option Nat := ofNat (a * b)

/-- Shifts a word to the left. No bit may get lost. -/
def shiftLeft (a places : Nat) : Option Nat := if places < bits then ofNat (a <<< places) else none

def shiftRight (a places : Nat) : Option Nat := if places < bits then some (a >>> places) else none

/-- Divides a word and rounds up. -/
def divCeil (a b : Nat) : Option Nat := if a % b = 0 then some (a / b) else add (a / b) 1

theorem ofNat_eq_some {n m : Nat} : ofNat n = some m ↔ n = m ∧ n ≤ Decimal.maxWord64 := by
  unfold ofNat
  split
  · rename_i h
    simp [h]
  · rename_i h
    simp [h]

theorem add_of_le {a b : Nat} (h : a + b ≤ Decimal.maxWord64) : add a b = some (a + b) := if_pos h

theorem mul_of_le {a b : Nat} (h : a * b ≤ Decimal.maxWord64) : mul a b = some (a * b) := if_pos h

theorem sub_of_le {a b : Nat} (h : b ≤ a) : sub a b = some (a - b) := if_pos h

theorem add_eq_none {a b : Nat} : add a b = none ↔ Decimal.maxWord64 < a + b := by
  simp [add, ofNat]

end CrossReference.Word
