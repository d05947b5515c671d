set_option autoImplicit false

/-! # Diagnostics

Irregularities that a reader absorbs instead of failing. A log keeps them in the order in which they
were met, or keeps none at all; the readers themselves only list what they met, so collecting can
change nothing but the list. -/

namespace CrossReference

/-- The kinds of irregularities. -/
inductive DiagnosticKind where
  /-- Bytes or tokens that were skipped. -/
  | structuralWarning
  /-- An offset that leads to no cross-reference section. -/
  | offsetInvalid
  /-- A cross-reference stream that cannot be decoded. -/
  | streamDecodeError
  /-- A chain of sections that leads back to one of them. -/
  | revisionCycle
  /-- An offset of an object at which another one stands, or none. -/
  | offsetMismatch
  /-- An object that could not be read during a rebuild. -/
  | objectSkipped
deriving DecidableEq, Repr

namespace DiagnosticKind

/-- The name of a kind. -/
def text : DiagnosticKind → String
  | structuralWarning => "StructuralWarning"
  | offsetInvalid => "OffsetInvalid"
  | streamDecodeError => "StreamDecodeError"
  | revisionCycle => "RevisionCycle"
  | offsetMismatch => "OffsetMismatch"
  | objectSkipped => "ObjectSkipped"

/-- All kinds. -/
def all : List DiagnosticKind :=
  [structuralWarning, offsetInvalid, streamDecodeError, revisionCycle, offsetMismatch,
    objectSkipped]

end DiagnosticKind

/-- An irregularity, the offset that it concerns if there is one, and what happened. -/
structure Diagnostic where
  kind : DiagnosticKind
  offset : Option Nat
  message : String
deriving DecidableEq, Repr

namespace Diagnostic

/-- The line that shows a diagnostic. -/
def text (d : Diagnostic) : String :=
  match d.offset with
  | some offset => s!"{d.kind.text} at {offset}: {d.message}"
  | none => s!"{d.kind.text}: {d.message}"

end Diagnostic

/-- A list of diagnostics, newest last, that may be closed to new ones. -/
structure Log where
  collect : Bool
  entries : List Diagnostic := []
deriving DecidableEq, Repr

namespace Log

/-- Adds a diagnostic, if the log collects. -/
def record (log : Log) (d : Diagnostic) : Log :=
  if log.collect then { log with entries := log.entries ++ [d] } else log

/-- Adds several diagnostics in order. -/
def recordAll (log : Log) (ds : List Diagnostic) : Log := ds.foldl record log

theorem entries_recordAll (log : Log) (ds : List Diagnostic) :
    (log.recordAll ds).entries = if log.collect then log.entries ++ ds else log.entries := by
  induction ds generalizing log with
  | nil => simp [recordAll]
  | cons d rest ih =>
    have := ih (log.record d)
    simp only [recordAll, List.foldl_cons] at this ⊢
    rw [this]
    unfold record
    split <;> simp_all

end Log

end CrossReference
