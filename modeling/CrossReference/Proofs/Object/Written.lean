import CrossReference.Proofs.Object.Extension
import CrossReference.Proofs.Token.Printed

set_option autoImplicit false

/-! # Dictionaries that are written out

A dictionary of numbers, as a writer of trailers produces it, each token behind a single space. If
the numbers are integers of the document syntax, the reader takes it as it is, whatever stands
behind it (`readDict_written`). -/

namespace CrossReference

open Bytes (Stops)
open Decimal (digits)

/-- A dictionary entry as a writer gives it: a name without escapes, and a number. -/
structure NumberEntry where
  name : Bytes
  value : Nat
  plain : ∀ b ∈ name, Token.isPlain b = true

namespace NumberEntry

def text (e : NumberEntry) : Bytes := 0x20 :: 0x2F :: (e.name ++ 0x20 :: digits e.value)

/-- Adds an entry to a dictionary. -/
def addTo (d : Dict Object) (e : NumberEntry) : Dict Object := d.insert ⟨e.name⟩ (.integer e.value)

end NumberEntry

/-- The end of a dictionary. -/
def dictEnd : Bytes := [0x20, 0x3E, 0x3E]

/-- The entries of a dictionary and its end. -/
def entriesText (entries : List NumberEntry) : Bytes :=
  entries.flatMap NumberEntry.text ++ dictEnd

/-- A dictionary behind a space. -/
def dictText (entries : List NumberEntry) : Bytes := 0x20 :: 0x3C :: 0x3C :: entriesText entries

/-- What a dictionary says. -/
def dictOf (entries : List NumberEntry) : Dict Object := entries.foldl NumberEntry.addTo .empty

namespace Reader

theorem significant_name {name rest : Bytes}
    (hplain : ∀ b ∈ name, Token.isPlain b = true) (hstop : Stops Byte.isRegular rest)
    (position : Nat) :
    significant ⟨position, 0x20 :: 0x2F :: (name ++ rest)⟩ =
      .ok (.name ⟨name⟩) ⟨position + (2 + name.length), rest⟩ := by
  have hread := significant_of_scan Byte.space_white (by decide) (by decide)
    (Token.scan_name hplain hstop) position
  have hdrop : (0x2F :: (name ++ rest)).drop (1 + name.length) = rest := by
    rw [Nat.add_comm, List.drop_succ_cons, List.drop_left]
  have hplace : position + ([0x20] : Bytes).length + (1 + name.length) =
      position + (2 + name.length) := by
    rw [List.length_singleton]
    omega
  rw [hdrop, hplace] at hread
  exact hread

theorem significant_digits {n : Nat} (hn : n ≤ Decimal.maxSigned64) {rest : Bytes}
    (hstop : Token.StopsNumber rest) (position : Nat) :
    significant ⟨position, 0x20 :: (digits n ++ rest)⟩ =
      .ok (.integer n) ⟨position + (1 + (digits n).length), rest⟩ := by
  have hread := token_of_scan_white Byte.space_white (Token.scan_natural hn hstop) position
  rw [List.drop_left, List.length_singleton, Nat.add_assoc] at hread
  exact significant_of_token hread Token.noConfusion fun _ => Token.noConfusion

/-- A text whose first token is no integer. -/
def NoInteger (text : Bytes) : Prop :=
  ∀ position value c, token ⟨position, text⟩ ≠ .ok (.integer value) c

theorem entriesText_cons (e : NumberEntry) (entries : List NumberEntry) (rest : Bytes) :
    entriesText (e :: entries) ++ rest =
      0x20 :: 0x2F :: (e.name ++ 0x20 :: (digits e.value ++ (entriesText entries ++ rest))) := by
  unfold entriesText NumberEntry.text
  simp only [List.flatMap_cons, List.append_assoc, List.cons_append]

theorem noInteger_entriesText (entries : List NumberEntry) (rest : Bytes) :
    NoInteger (entriesText entries ++ rest) := by
  intro position value c h
  cases entries with
  | nil =>
    have hclose := token_of_scan (Token.scan_dictClose rest) (position + ([0x20] : Bytes).length)
    rw [← token_white Byte.space_white] at hclose
    cases hclose.symm.trans h
  | cons e entries =>
    have hstop : Stops Byte.isRegular (0x20 :: (digits e.value ++ (entriesText entries ++ rest))) :=
      Bytes.stops_cons.mpr (by decide)
    have hname := token_of_scan (Token.scan_name e.plain hstop)
      (position + ([0x20] : Bytes).length)
    rw [← token_white Byte.space_white] at hname
    rw [entriesText_cons] at h
    cases hname.symm.trans h

/-- An integer in front of such a text is no part of a reference. -/
theorem integerOrReference_of_noInteger {text : Bytes} (h : NoInteger text) (value : Int)
    (position : Nat) :
    integerOrReference value ⟨position, text⟩ = .ok (.integer value) ⟨position, text⟩ := by
  have hnone : reference? value ⟨position, text⟩ = none := by
    unfold reference?
    split
    · rename_i hread
      exact absurd hread (h position _ _)
    · rfl
  unfold integerOrReference
  rw [hnone]

theorem entries_written {item : Token → Reader Object}
    (hitem : ∀ value, item (.integer value) = integerOrReference value)
    {entries : List NumberEntry} (hvalues : ∀ e ∈ entries, e.value ≤ Decimal.maxSigned64)
    (rest : Bytes) (acc : Dict Object) {rounds : Nat}
    (hrounds : entries.length < rounds) (position : Nat) :
    Reader.entries item acc rounds ⟨position, entriesText entries ++ rest⟩ =
      .ok (entries.foldl NumberEntry.addTo acc)
        ⟨position + (entriesText entries).length, rest⟩ := by
  induction entries generalizing acc rounds position with
  | nil =>
    obtain ⟨left, rfl⟩ : ∃ left, rounds = left + 1 := ⟨rounds - 1, by omega⟩
    have hclose := significant_of_scan Byte.space_white (by decide) (by decide)
      (Token.scan_dictClose rest) position
    exact entries_succ_eq_ok.mpr (Or.inl ⟨hclose, rfl⟩)
  | cons e entries ih =>
    obtain ⟨hle, hvalues⟩ := List.forall_mem_cons.mp hvalues
    rw [List.length_cons] at hrounds
    obtain ⟨left, rfl⟩ : ∃ left, rounds = left + 1 := ⟨rounds - 1, by omega⟩
    have hlength : (entriesText (e :: entries)).length =
        2 + e.name.length + (1 + (digits e.value).length) + (entriesText entries).length := by
      unfold entriesText NumberEntry.text
      simp only [List.flatMap_cons, List.length_append, List.length_cons]
      omega
    have hname := significant_name e.plain
      (Bytes.stops_cons.mpr (by decide) :
        Stops Byte.isRegular (0x20 :: (digits e.value ++ (entriesText entries ++ rest)))) position
    have hstop : Token.StopsNumber (entriesText entries ++ rest) := by
      cases entries <;>
        exact ⟨Bytes.stops_cons.mpr (by decide), Bytes.stops_cons.mpr (by decide)⟩
    have hvalue := significant_digits hle hstop (position + (2 + e.name.length))
    have hinteger := integerOrReference_of_noInteger (noInteger_entriesText entries rest) e.value
      (position + (2 + e.name.length) + (1 + (digits e.value).length))
    have hrest := ih hvalues (acc.insert ⟨e.name⟩ (.integer e.value))
      (show entries.length < left by omega)
      (position + (2 + e.name.length) + (1 + (digits e.value).length))
    rw [entriesText_cons, hlength, ← Nat.add_assoc, ← Nat.add_assoc]
    refine entries_succ_eq_ok.mpr (Or.inr ⟨_, _, _, _, _, _, hname, hvalue, ?_, hrest⟩)
    rw [hitem]
    exact hinteger

end Reader

/-- A dictionary of numbers is read as it is written. -/
theorem Object.readDict_written (tolerance : Tolerance) {entries : List NumberEntry}
    (hvalues : ∀ e ∈ entries, e.value ≤ Decimal.maxSigned64) (rest : Bytes) (position : Nat) :
    readDict tolerance ⟨position, dictText entries ++ rest⟩ =
      .ok (dictOf entries) ⟨position + (dictText entries).length, rest⟩ := by
  have hopen := Reader.significant_of_scan Byte.space_white (by decide) (by decide)
    (Token.scan_dictOpen (entriesText entries ++ rest)) position
  have hitem : ∀ nesting value, ofToken tolerance nesting (.integer value) =
      Reader.integerOrReference value := by
    intro nesting value
    cases nesting <;> rfl
  have hrounds : entries.length < (entriesText entries ++ rest).length := by
    have hne : ∀ e : NumberEntry, e.text ≠ [] := fun _ => List.cons_ne_nil _ _
    have hle := Bytes.length_le_flatMap hne entries
    unfold entriesText dictEnd
    rw [List.length_append, List.length_append, List.length_cons]
    omega
  have hlength : position + ([0x20] : Bytes).length + 2 + (entriesText entries).length =
      position + (dictText entries).length := by
    unfold dictText
    simp only [List.length_cons, List.length_nil]
    omega
  refine bind_eq_ok.mpr ⟨.dictOpen, _, hopen, ?_⟩
  rw [← hlength]
  exact Reader.entries_written (hitem _) hvalues rest .empty hrounds _

end CrossReference
