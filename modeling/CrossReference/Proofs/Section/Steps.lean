import CrossReference.Proofs.Section.Draft

set_option autoImplicit false

/-! # Readings in lockstep

What holds of each step of the reader of tables, and of two readings in a row if it holds of both,
holds of the whole reader. `Lockstep` says so for a relation between two readings, one by a pedantic
reader and one by another, say; of a fact about a single reading it is the case of equal settings.
-/

namespace CrossReference.Section

/-- A relation between readings with two settings that holds of the single steps and is kept by
    sequencing. -/
structure Lockstep (pedantic pedantic' : Bool)
    (R : {α : Type} → DraftReader α → DraftReader α → Prop) : Prop where
  pure : ∀ {α : Type} (a : α), R (Pure.pure a) (Pure.pure a)
  throw : ∀ {α : Type} (e : Error), R (MonadExcept.throw e : DraftReader α) (MonadExcept.throw e)
  bind : ∀ {α β : Type} {x x' : DraftReader α} {f f' : α → DraftReader β}, R x x' →
    (∀ a, R (f a) (f' a)) → R (x >>= f) (x' >>= f')
  rounds : ∀ {α : Type} {loop loop' : Nat → DraftReader α}, (∀ n, R (loop n) (loop' n)) →
    R (draftRounds loop) (draftRounds loop')
  skipToText : R skipToText skipToText
  skipLine : R (move Cursor.skipLine) (move Cursor.skipLine)
  complain : ∀ offset message, R (complain offset message) (complain offset message)
  keepRecord : ∀ number c, R (keepRecord pedantic number c) (keepRecord pedantic' number c)

namespace Lockstep

variable {pedantic pedantic' : Bool} {R : {α : Type} → DraftReader α → DraftReader α → Prop}

theorem readRecord (h : Lockstep pedantic pedantic' R) (number : Nat) (c : Cursor) :
    R (readRecord pedantic number c) (readRecord pedantic' number c) := by
  rw [readRecord_eq, readRecord_eq]
  refine h.bind h.skipLine fun _ => ?_
  split
  · exact h.throw _
  · exact h.keepRecord number c

theorem readRecords (h : Lockstep pedantic pedantic' R) (start count done left : Nat) :
    R (readRecords pedantic start count done left)
      (readRecords pedantic' start count done left) := by
  induction left generalizing done with
  | zero => exact h.pure ()
  | succ left ih =>
    refine h.bind h.skipToText fun c => ?_
    split
    · exact h.bind (h.readRecord _ c) fun _ => ih (done + 1)
    · exact h.complain _ _

theorem readAnnounced (h : Lockstep pedantic pedantic' R) (c : Cursor) :
    R (readAnnounced pedantic c) (readAnnounced pedantic' c) := by
  unfold Section.readAnnounced
  split
  · exact h.readRecords _ _ _ _
  · exact h.complain _ _

theorem readSubsections (h : Lockstep pedantic pedantic' R) (rounds : Nat) :
    R (readSubsections pedantic rounds) (readSubsections pedantic' rounds) := by
  induction rounds with
  | zero => exact h.pure ()
  | succ rounds ih =>
    rw [readSubsections_succ, readSubsections_succ]
    refine h.bind h.skipToText fun c => ?_
    split
    · exact h.bind h.skipLine fun _ => h.bind (h.readAnnounced c) fun _ => ih
    · exact h.pure ()

theorem findTrailer (h : Lockstep pedantic pedantic' R) (rounds : Nat) :
    R (findTrailer rounds) (findTrailer rounds) := by
  induction rounds with
  | zero => exact h.throw _
  | succ rounds ih =>
    refine h.bind h.skipToText fun c => ?_
    split
    · exact h.throw _
    · exact h.pure _
    · exact h.bind h.skipLine fun _ => h.bind (h.complain _ _) fun _ => ih

theorem readBody (h : Lockstep pedantic pedantic' R)
    (hword : ∀ word, R (reading (Reader.expect word)) (reading (Reader.expect word))) :
    R (Section.readBody pedantic) (Section.readBody pedantic') :=
  h.bind (hword _) fun _ => h.rounds h.readSubsections

theorem seekTrailer (h : Lockstep pedantic pedantic' R) :
    R (draftRounds Section.findTrailer) (draftRounds Section.findTrailer) :=
  h.rounds h.findTrailer

/-- Readers of tables are in lockstep if they are where they read keywords and the dictionary. -/
theorem readTable {tolerance tolerance' : Tolerance}
    (h : Lockstep tolerance.pedantic tolerance'.pedantic R)
    (hword : ∀ word, R (reading (Reader.expect word)) (reading (Reader.expect word)))
    (hdict : R (reading (Object.readDict tolerance)) (reading (Object.readDict tolerance'))) :
    R (Section.readBody tolerance.pedantic >>= fun _ => readTrailer tolerance)
      (Section.readBody tolerance'.pedantic >>= fun _ => readTrailer tolerance') := by
  refine h.bind (h.readBody hword) fun _ => ?_
  exact h.bind h.seekTrailer fun _ => h.bind (hword _) fun _ => h.bind hdict fun _ => h.pure _

end Lockstep

end CrossReference.Section
