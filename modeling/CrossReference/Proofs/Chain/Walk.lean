import CrossReference.Proofs.Chain.Route
import CrossReference.Proofs.Table.Union

set_option autoImplicit false

/-! # The walk follows its route

The walk along the chain is written as a computation on a state. Here each of its parts is run on a
state, and the outcome is said in terms of legs: `run_readSection` for one section, `run_walkFrom`
for a walk that goes on, by induction on the sections that it may still read, and `walk_eq` for the
whole. -/

namespace CrossReference

namespace Chain

variable (options : Options) (file : Bytes)

/-! ## Steps -/

theorem run_bind {α β : Type} (x : Walk α) (f : α → Walk β) (ch : Chain) :
    (x >>= f).run ch = (f (x.run ch).1).run (x.run ch).2 := rfl

theorem run_pure {α : Type} (a : α) (ch : Chain) : (pure a : Walk α).run ch = (a, ch) := rfl

theorem run_get (ch : Chain) : (get : Walk Chain).run ch = (ch, ch) := rfl

theorem run_set (c ch : Chain) : (set c : Walk PUnit).run ch = (⟨⟩, c) := rfl

theorem run_modify (f : Chain → Chain) (ch : Chain) :
    (modify f : Walk PUnit).run ch = (⟨⟩, f ch) := rfl

theorem run_complain (kind : DiagnosticKind) (offset : Option Nat) (message : String) (ch : Chain) :
    (complain kind offset message).run ch = ((), ch.note [⟨kind, offset, message⟩]) := rfl

theorem run_mergeTable (t : Table) (ch : Chain) :
    (mergeTable t).run ch = ((), { ch with table := ch.table.merge t }) := rfl

theorem run_addRevision (r : Revision) (ch : Chain) :
    (addRevision r).run ch = ((), { ch with revisions := ch.revisions ++ [r] }) := rfl

theorem run_visit (offset : Nat) (ch : Chain) :
    (visit offset).run ch = (ch.visited.contains offset,
      if ch.visited.contains offset then ch else { ch with visited := offset :: ch.visited }) := by
  unfold visit
  rw [run_bind, run_get]
  by_cases h : ch.visited.contains offset
  · rw [if_neg (by simp only [h, Bool.not_true, Bool.false_eq_true, not_false_eq_true]), if_pos h]
    rfl
  · rw [if_pos (by simp only [h, Bool.not_false]), if_neg h]
    rfl

theorem note_nil (ch : Chain) : ch.note [] = ch := by simp [note]

theorem finish_last (ch : Chain) : ch.finish options .last = ch := by
  simp [finish, Ending.notes, Ending.followed, note_nil]

/-! ## Links -/

theorem run_usableOffset (role : LinkRole) (offset : Nat) (ch : Chain) :
    (usableOffset options file role offset).run ch =
      (role.target? options file ch.visited offset, ch.note (role.notes options file offset)) := by
  unfold usableOffset LinkRole.target? LinkRole.notes LinkRole.holds
  split
  · rw [run_pure, note_nil]
  · rfl

theorem run_prevOffset (trailer : Dict Object) (ch : Chain) :
    (prevOffset options file trailer).run ch =
      ((Leg.prevLink options file ch.visited trailer).1,
        ch.note (Leg.prevLink options file ch.visited trailer).2) := by
  have quiet : (none, ch) = ((none : Option Nat), ch.note []) := by rw [note_nil]
  unfold prevOffset Leg.prevLink
  rcases trailer.get? "Prev" with _ | x
  · exact quiet
  · cases x with
    | integer i =>
      rcases i with n | n
      · cases n with
        | zero => exact quiet
        | succ n => exact run_usableOffset options file .prev (n + 1) ch
      · rfl
    | _ => rfl

/-- What a link to a companion does to a walk: the companion counts as followed. -/
theorem run_companionOffset (trailer : Dict Object) (ch : Chain) :
    (companionOffset options file trailer).run ch =
      ((Leg.companionLink options file ch.visited trailer).1,
        { ch.note (Leg.companionLink options file ch.visited trailer).2 with
          visited := (Leg.companionLink options file ch.visited trailer).1.toList ++
            ch.visited }) := by
  have quiet : (none, ch) = ((none : Option Nat), { ch.note [] with visited := ch.visited }) := by
    rw [note_nil]
  unfold companionOffset Leg.companionLink
  rcases trailer.get? "XRefStm" with _ | x
  · exact quiet
  · cases x with
    | integer i =>
      rcases i with n | n
      · cases n with
        | zero => rfl
        | succ n =>
          dsimp only
          rw [run_bind, run_usableOffset]
          cases LinkRole.companion.target? options file ch.visited (n + 1) with
          | none => rfl
          | some offset =>
            dsimp only
            rw [run_bind, run_visit]
            -- a complaint does not change what was followed
            have hv : (ch.note (LinkRole.companion.notes options file (n + 1))).visited =
                ch.visited := rfl
            rw [hv]
            by_cases h : ch.visited.contains offset
            · rw [if_pos h, if_pos h, if_pos h, run_bind, run_complain, run_pure]
              simp [note]
            · rw [if_neg h, if_neg h, if_neg h, run_pure]
              rfl
      · rfl
    | _ => rfl

/-! ## Reading sections -/

@[simp] theorem overlay_empty (own : Table) : overlay own .empty = own := rfl

theorem run_readCompanion (tolerance : Tolerance) (offset : Nat) (own : Table) (ch : Chain) :
    (readCompanion tolerance file offset own).run ch =
      (overlay own (.ofList (Leg.ofStream file tolerance "Hybrid xref stream is unusable: " offset).own),
        let c := Leg.ofStream file tolerance "Hybrid xref stream is unusable: " offset
        { ch with
          trailer := c.trailers.foldl (fun t d => t.merge d.1 d.2) ch.trailer
          notes := ch.notes ++ c.notes
          revisions := ch.revisions ++ c.revisions }) := by
  unfold readCompanion Leg.ofStream Harvest.addStream
  rw [run_bind, run_get]
  dsimp only
  obtain ⟨result, notes⟩ := Section.readStream tolerance file offset
  cases result with
  | error e =>
    dsimp only
    rw [run_bind, run_set]
    simp only [run_bind, run_complain, run_pure, note]
    simp
  | ok s =>
    dsimp only
    rw [run_bind, run_set]
    simp only [run_bind, run_addRevision, run_pure, Table.empty_merge (Table.tight_ofList s.records)]
    simp

theorem run_readStream (offset : Nat) (ch : Chain) :
    (readStream options file offset).run ch =
      ((Leg.stream options file ch.visited offset).next,
        ch.gain (Leg.stream options file ch.visited offset)) := by
  unfold readStream Leg.stream Leg.ofStream Harvest.addStream
  rw [run_bind, run_get]
  dsimp only
  obtain ⟨result, notes⟩ := Section.readStream options.toTolerance file offset
  cases result with
  | error e =>
    dsimp only
    rw [run_bind, run_set]
    simp only [run_bind, run_complain, run_pure, note, gain, Leg.entries]
    simp [Route.follow]
  | ok s =>
    dsimp only
    rw [run_bind, run_set]
    simp only [run_bind, run_addRevision, run_prevOffset, note, gain, Leg.entries, Leg.followedBy]
    simp [Route.follow]

theorem run_readTable (offset : Nat) (ch : Chain) :
    (readTable options file offset).run ch =
      ((Leg.table options file ch.visited offset).next,
        ch.gain (Leg.table options file ch.visited offset)) := by
  unfold readTable Leg.table
  cases Section.readTable options.toTolerance file offset with
  | error e draft =>
    dsimp only
    simp only [run_bind, run_modify, run_mergeTable, run_complain, run_pure, note, gain, Leg.entries]
    simp [Route.follow, Section.Draft.table]
  | ok found draft =>
    obtain ⟨trailerOffset, trailer⟩ := found
    dsimp only
    simp only [run_bind, run_modify, run_addRevision, run_companionOffset]
    unfold Leg.withCompanion
    obtain ⟨companion, notes⟩ := Leg.companionLink options file ch.visited trailer
    cases companion with
    | none =>
      simp only [run_bind, run_mergeTable, run_prevOffset, note, gain, Leg.entries, Leg.followedBy]
      simp [Route.follow, Section.Draft.table]
    | some companion =>
      simp only [run_bind, run_mergeTable, run_prevOffset, run_readCompanion, note, gain,
        Leg.entries, Leg.followedBy]
      simp [Route.follow, Section.Draft.table]

/-- Reading a section adds its leg to the walk and goes on where the leg says. -/
theorem run_readSection (offset : Nat) (ch : Chain) :
    (readSection options file offset).run ch =
      ((Leg.read options file ch.visited offset).next,
        ch.gain (Leg.read options file ch.visited offset)) := by
  unfold readSection Leg.read
  cases Section.probe options.toTolerance file offset with
  | none =>
    simp only [run_bind, run_complain, run_pure, note, gain, Leg.entries]
    simp [Route.follow]
  | some kind =>
    cases kind with
    | table => exact run_readTable options file offset ch
    | stream => exact run_readStream options file offset ch

/-! ## Walking on -/

/-- A walk adds the legs of its route one by one, and then ends. -/
theorem run_walkFrom (left offset : Nat) (ch : Chain) :
    ((walkFrom options file offset left).run ch).2 =
      ((Route.legsFrom options file ch.visited offset left).foldl absorb ch).finish options
        (Route.endingFrom options file ch.visited offset left) := by
  induction left generalizing offset ch with
  | zero =>
    unfold walkFrom Route.legsFrom Route.endingFrom
    rw [run_bind, run_visit]
    by_cases h : ch.visited.contains offset
    · simp only [h, if_true]
      rfl
    · simp only [h, if_false, Bool.false_eq_true]
      rfl
  | succ left ih =>
    unfold walkFrom Route.legsFrom Route.endingFrom
    rw [run_bind, run_visit]
    by_cases h : ch.visited.contains offset
    · simp only [h, if_true]
      rfl
    · simp only [h, if_false, Bool.false_eq_true]
      rw [run_bind, run_readSection]
      dsimp only
      -- the walk goes on where the leg says, with what the leg gave
      have habsorb : ch.absorb (Leg.read options file (offset :: ch.visited) offset) =
          { ch with visited := offset :: ch.visited }.gain
            (Leg.read options file (offset :: ch.visited) offset) := by
        rw [absorb, Leg.offset_read]
      cases (Leg.read options file (offset :: ch.visited) offset).next with
      | none =>
        rw [List.foldl_cons, List.foldl_nil, habsorb, finish_last]
        rfl
      | some next =>
        dsimp only
        rw [ih, List.foldl_cons, habsorb]
        rfl

/-- The whole walk adds the legs of its route one by one, and then ends. -/
theorem walk_eq :
    walk options file =
      ((Route.legs options file).foldl absorb (outset options file)).finish options
        (Route.ending options file) := by
  unfold walk Route.legs Route.ending Route.start? outset Route.startNotes
  obtain ⟨start, notes⟩ := StartLink.find options file
  cases start with
  | none =>
    dsimp only [Option.bind_none]
    rw [List.foldl_nil, finish_last, List.append_nil]
    rfl
  | some offset =>
    dsimp only [Option.bind_some]
    rw [run_bind, run_usableOffset]
    dsimp only
    cases LinkRole.start.target? options file [] offset with
    | none =>
      rw [List.foldl_nil, finish_last]
      rfl
    | some target => exact run_walkFrom options file options.maxRevisions target _

end Chain

end CrossReference
