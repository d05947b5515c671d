import CrossReference.Proofs.Resolve.Repair
import CrossReference.Proofs.Section.Steps

set_option autoImplicit false

/-! # Collecting diagnostics

Whether complaints are collected makes no difference to anything but the list of them, for two
reasons. First, no stage of a resolution heeds the complaints that were made before it: each of them
carries a list of complaints along and adds to it, and is `Heedless` of what stands there already.
This is shown for one step of a stage, for one section of the walk, say, or one object of a rebuild,
and from it for the whole stage, by induction on its rounds. Second, no stage asks whether
complaints are collected: the walk is the same on every leg (`Route.legsFrom_collecting`), and so is
what comes after it. So the list is dropped or kept at the very end (`resolve_collecting`). -/

namespace CrossReference

/-! ## Heedless functions -/

/-- What carries a list of complaints along. -/
class Noted (σ : Type) where
  /-- The same with other complaints in front of its own. -/
  behind : List Diagnostic → σ → σ

open Noted (behind)

instance : Noted Harvest := ⟨fun ds h => { h with notes := ds ++ h.notes }⟩

instance : Noted Chain := ⟨fun ds ch => { ch with notes := ds ++ ch.notes }⟩

instance : Noted Sweep := ⟨fun ds s => { s with notes := ds ++ s.notes }⟩

instance : Noted Recovery := ⟨fun ds r => { r with notes := ds ++ r.notes }⟩

instance : Noted Section.Draft := ⟨fun ds d => { d with notes := ds ++ d.notes }⟩

instance {α σ : Type} [Noted σ] : Noted (α × σ) := ⟨fun ds p => (p.1, behind ds p.2)⟩

instance {α σ : Type} [Noted σ] : Noted (EStateM.Result Error σ α) where
  behind ds
    | .ok a s => .ok a (behind ds s)
    | .error e s => .error e (behind ds s)

/-- A function that does not heed the complaints it is given: with others in front of them it gives
    the same, with the others in front. -/
def Heedless {σ τ : Type} [Noted σ] [Noted τ] (f : σ → τ) : Prop :=
  ∀ ds s, f (behind ds s) = behind ds (f s)

/-- A loop is heedless if every round is. -/
theorem Heedless.foldl {σ α : Type} [Noted σ] {f : σ → α → σ} (h : ∀ a, Heedless fun s => f s a)
    (rounds : List α) : Heedless fun s => rounds.foldl f s := by
  intro ds s
  induction rounds generalizing s with
  | nil => rfl
  | cons a rest ih =>
    have hround := h a ds s
    dsimp only at hround ih ⊢
    rw [List.foldl_cons, List.foldl_cons, hround, ih]

/-! ## Sections -/

namespace Section

theorem heedless_bind {α β : Type} {x : DraftReader α} {f : α → DraftReader β} (hx : Heedless x)
    (hf : ∀ a, Heedless (f a)) : Heedless (x >>= f) := by
  intro ds d
  have h := hx ds d
  cases hd : x d with
  | ok a d' =>
    rw [hd] at h
    rw [bind_of_ok h, bind_of_ok hd]
    exact hf a ds d'
  | error e d' =>
    rw [hd] at h
    rw [bind_of_error h, bind_of_error hd]
    rfl

theorem heedless_reading {α : Type} (r : Reader α) : Heedless (reading r) := by
  intro ds d
  have hcursor : (behind ds d).cursor = d.cursor := rfl
  unfold reading
  rw [hcursor]
  cases r d.cursor <;> rfl

theorem heedless_complain (offset : Nat) (message : String) :
    Heedless (complain offset message) := by
  intro ds d
  exact congrArg (fun notes => EStateM.Result.ok () { d with notes }) (List.append_assoc ..)

theorem heedless_keepRecord (pedantic : Bool) (number : Nat) (c : Cursor) :
    Heedless (keepRecord pedantic number c) := by
  unfold keepRecord
  split
  · exact fun _ _ => rfl
  · exact heedless_complain _ _

theorem lockstep_heedless (pedantic : Bool) :
    Lockstep pedantic pedantic fun x _ => Heedless x where
  pure _ := fun _ _ => rfl
  throw _ := fun _ _ => rfl
  bind := heedless_bind
  rounds h := fun ds d => h _ ds d
  skipToText := fun _ _ => rfl
  skipLine := fun _ _ => rfl
  complain := heedless_complain
  keepRecord := heedless_keepRecord pedantic

/-- The reader of tables does not heed the complaints of its draft. -/
theorem heedless_table (tolerance : Tolerance) :
    Heedless (readBody tolerance.pedantic >>= fun _ => readTrailer tolerance) :=
  (lockstep_heedless tolerance.pedantic).readTable (fun _ => heedless_reading _)
    (heedless_reading _)

end Section

theorem Harvest.heedless_addStream (tolerance : Tolerance) (file : Bytes) (offset : Nat) :
    Heedless fun h : Harvest => h.addStream tolerance file offset := by
  intro ds h
  unfold addStream
  obtain ⟨result, notes⟩ := Section.readStream tolerance file offset
  cases result with
  | error e => simp only [behind, List.append_assoc]
  | ok s => simp only [behind, List.append_assoc]

/-! ## The walk -/

namespace Chain

variable (options : Options) (file : Bytes)

/-- What a computation does to a walk, with its answer. -/
def effect {α : Type} (x : Walk α) (ch : Chain) : α × Chain := x.run ch

theorem heedless_note (notes : List Diagnostic) : Heedless fun ch => note ch notes := by
  intro ds ch
  simp only [behind, note, List.append_assoc]

/-- A link leads to the same place, whatever was complained about before. -/
theorem heedless_usableOffset (role : LinkRole) (offset : Nat) :
    Heedless (effect (usableOffset options file role offset)) := by
  intro ds ch
  unfold effect
  rw [run_usableOffset, run_usableOffset]
  exact congrArg (Prod.mk _) (heedless_note _ ds ch)

theorem heedless_gain (l : Leg) : Heedless fun ch => gain ch l := by
  intro ds ch
  simp only [behind, gain, List.append_assoc]

/-- A section leads on to the same place, whatever was complained about before. -/
theorem heedless_readSection (offset : Nat) :
    Heedless (effect (readSection options file offset)) := by
  intro ds ch
  unfold effect
  rw [run_readSection, run_readSection]
  exact congrArg (Prod.mk _) (heedless_gain _ ds ch)

theorem heedless_absorb (l : Leg) : Heedless fun ch => absorb ch l :=
  fun ds ch => heedless_gain l ds { ch with visited := l.offset :: ch.visited }

theorem heedless_finish (e : Ending) : Heedless fun ch => finish options ch e := by
  intro ds ch
  have h := heedless_note (e.notes options) ds ch
  exact congrArg (fun noted : Chain => { noted with visited := e.followed ++ ch.visited }) h

/-- A walk takes the same route, whatever was complained about before. -/
theorem heedless_walkFrom (offset left : Nat) :
    Heedless (effect (walkFrom options file offset left)) := by
  intro ds ch
  refine Prod.ext rfl ?_
  show ((walkFrom options file offset left).run (behind ds ch)).2 =
    behind ds ((walkFrom options file offset left).run ch).2
  have hlegs := Heedless.foldl heedless_absorb
    (Route.legsFrom options file ch.visited offset left) ds ch
  dsimp only at hlegs ⊢
  rw [run_walkFrom, run_walkFrom, ← heedless_finish]
  exact congrArg (finish options · _) hlegs

end Chain

/-! ## The sweep -/

namespace Sweep

theorem heedless_complain (offset : Nat) (message : String) :
    Heedless fun s => complain s offset message := by
  intro ds s
  simp only [behind, complain, List.append_assoc]

theorem heedless_fail (actual : Option Nat) (found : Option Key) (k : Key) (offset : Nat) :
    Heedless fun s => fail s actual found k offset := by
  intro ds s
  cases actual with
  | some actual =>
    exact heedless_complain offset _ ds { s with table := s.table.relocate k actual }
  | none =>
    exact heedless_complain offset _ ds
      { s with
        table := s.table.remove k
        excluded := s.excluded ++ [(k, Entry.direct offset)] }

theorem heedless_check (file : Bytes) (lastOffset? : Key → Option Nat) (entry : Key × Nat) :
    Heedless fun s => check file lastOffset? s entry := by
  intro ds s
  unfold check
  dsimp only
  split
  · rfl
  · exact heedless_fail _ _ _ _ ds s

end Sweep

/-! ## A rebuild -/

namespace Recovery

theorem heedless_complain (offset : Option Nat) (message : String) :
    Heedless fun r => complain r offset message := by
  intro ds r
  simp only [behind, complain, List.append_assoc]

theorem heedless_skip (offset : Option Nat) (message : String) :
    Heedless fun r => skip r offset message :=
  fun ds r => heedless_complain offset message ds
    { r with stats := { r.stats with objectsSkipped := r.stats.objectsSkipped + 1 } }

variable (tolerance : Tolerance)

theorem heedless_addMember (k : Key) (s : ObjectStream) (member : Nat × Nat) :
    Heedless fun r => addMember tolerance k s r member := by
  intro ds r
  obtain ⟨number, index⟩ := member
  -- whether the key is taken only depends on the table
  have htable : (behind ds r).table = r.table := rfl
  unfold addMember
  dsimp only
  rw [htable]
  split
  · rfl
  · cases s.object tolerance index with
    | ok x => rfl
    | error e =>
      exact heedless_skip none _ ds
        { r with
          table := r.table.add ⟨number, 0⟩ (.compressed k.number index)
          stats := { r.stats with compressedEntries := r.stats.compressedEntries + 1 } }

theorem heedless_addMembers (k : Key) (entries : Dict Object) (data : Bytes) :
    Heedless fun r => addMembers tolerance r k entries data := by
  intro ds r
  unfold addMembers
  cases ObjectStream.ofStream tolerance entries data with
  | error e => exact heedless_complain _ _ ds r
  | ok s => exact Heedless.foldl (heedless_addMember tolerance k s) _ ds r

theorem heedless_examine (openStreams : Bool) (k : Key) (x : Object) :
    Heedless fun r => examine tolerance openStreams r k x := by
  intro ds r
  unfold examine
  cases x with
  | stream entries data =>
    dsimp only
    split
    · exact heedless_addMembers tolerance k entries data ds
        { r with stats := classify r.stats k (.stream entries data) }
    · rfl
  | _ => rfl

theorem heedless_visit (openStreams : Bool) (file : Bytes) (located : Key × Nat) :
    Heedless fun r => visit tolerance openStreams file r located := by
  intro ds r
  unfold visit
  dsimp only
  split
  · split
    · exact heedless_examine tolerance openStreams _ _ ds r
    · exact heedless_skip _ _ ds r
  · exact heedless_skip _ _ ds r

end Recovery

/-! ## All stages -/

/-- No stage of a resolution heeds the complaints that were made before it. -/
structure HeedlessStages (options : Options) (file : Bytes) : Prop where
  table : Heedless (Section.readBody options.pedantic >>= fun _ =>
    Section.readTrailer options.toTolerance)
  stream : ∀ offset, Heedless fun h : Harvest => h.addStream options.toTolerance file offset
  link : ∀ role offset, Heedless (Chain.effect (Chain.usableOffset options file role offset))
  read : ∀ offset, Heedless (Chain.effect (Chain.readSection options file offset))
  walk : ∀ offset left, Heedless (Chain.effect (Chain.walkFrom options file offset left))
  sweep : ∀ lastOffset? entries, Heedless fun s : Sweep =>
    List.foldl (Sweep.check file lastOffset?) s entries
  rebuild : ∀ located, Heedless fun r : Recovery =>
    List.foldl (Recovery.visit options.toTolerance options.rebuildStreams file) r located

theorem heedlessStages (options : Options) (file : Bytes) : HeedlessStages options file where
  table := Section.heedless_table options.toTolerance
  stream := Harvest.heedless_addStream options.toTolerance file
  link := Chain.heedless_usableOffset options file
  read := Chain.heedless_readSection options file
  walk := Chain.heedless_walkFrom options file
  sweep lastOffset? := Heedless.foldl (Sweep.heedless_check file lastOffset?)
  rebuild :=
    Heedless.foldl (Recovery.heedless_visit options.toTolerance options.rebuildStreams file)

/-! ## Settings -/

variable (options : Options) (file : Bytes) (collect : Bool)

namespace Route

theorem legsFrom_collecting (visited : List Nat) (offset left : Nat) :
    legsFrom { options with collect } file visited offset left =
        legsFrom options file visited offset left ∧
      endingFrom { options with collect } file visited offset left =
        endingFrom options file visited offset left := by
  induction left generalizing visited offset with
  | zero => exact ⟨rfl, rfl⟩
  | succ left ih =>
    have hread : Leg.read { options with collect } file (offset :: visited) offset =
        Leg.read options file (offset :: visited) offset := rfl
    cases hnew : visited.contains offset with
    | true => simp only [legsFrom, endingFrom, hnew, if_true, and_self]
    | false =>
      simp only [legsFrom_of_new hnew, endingFrom_of_new hnew, hread]
      cases (Leg.read options file (offset :: visited) offset).next with
      | none => exact ⟨rfl, rfl⟩
      | some next =>
        obtain ⟨hlegs, hending⟩ :=
          ih (follow (offset :: visited) (Leg.read options file (offset :: visited) offset)) next
        exact ⟨congrArg _ hlegs, hending⟩

end Route

theorem Chain.walk_collecting : walk { options with collect } file = walk options file := by
  have hstart : Route.start? { options with collect } file = Route.start? options file := rfl
  have hlegs : Route.legs { options with collect } file = Route.legs options file ∧
      Route.ending { options with collect } file = Route.ending options file := by
    unfold Route.legs Route.ending
    rw [hstart]
    cases Route.start? options file with
    | none => exact ⟨rfl, rfl⟩
    | some offset => exact Route.legsFrom_collecting options file collect [] offset _
  rw [walk_eq, walk_eq, hlegs.1, hlegs.2]
  rfl

/-- An outcome with its list of diagnostics replaced. -/
def Resolution.listing (ds : List Diagnostic) (r : Resolution) : Resolution :=
  { r with diagnostics := ds }

namespace Resolve

/-- All complaints of a resolution, whether they are collected or not. -/
def complaints : List Diagnostic := chainNotes options file ++ rebuildNotes options file

variable {options file} in
theorem complaints_of_chainServes (hserves : chainServes options file = true) :
    complaints options file = chainNotes options file := by
  simp only [complaints, rebuildNotes, hserves, Bool.true_or, if_true, List.append_nil]

variable {options file} in
theorem complaints_of_rebuild {rebuilt : Recovery × Trailer}
    (hserves : ¬chainServes options file = true) (hrebuild : options.rebuild = true)
    (hrebuilt : rebuild options file = .ok rebuilt) :
    complaints options file = chainNotes options file ++ rebuilt.1.notes := by
  simp only [complaints, rebuildNotes, hserves, hrebuild, hrebuilt, Bool.not_true, Bool.or_false,
    Bool.false_eq_true, if_false]

theorem sweep_collecting : sweep { options with collect } file = sweep options file := by
  unfold sweep
  rw [Chain.walk_collecting]
  rfl

theorem chainNotes_collecting :
    chainNotes { options with collect } file = chainNotes options file := by
  unfold chainNotes
  rw [Chain.walk_collecting, sweep_collecting]

theorem chainServes_collecting :
    chainServes { options with collect } file = chainServes options file := by
  unfold chainServes
  rw [Chain.walk_collecting, sweep_collecting]

theorem rebuild_collecting : rebuild { options with collect } file = rebuild options file := by
  unfold rebuild
  rw [Chain.walk_collecting]
  rfl

theorem ofChain_collecting :
    ofChain { options with collect } file =
      (ofChain options file).listing (if collect then chainNotes options file else []) := by
  unfold ofChain
  rw [Chain.walk_collecting, sweep_collecting, chainNotes_collecting]
  rfl

theorem ofRebuild_collecting (rebuilt : Recovery × Trailer) :
    ofRebuild { options with collect } file rebuilt =
      (ofRebuild options file rebuilt).listing
        (if collect then chainNotes options file ++ rebuilt.1.notes else []) := by
  unfold ofRebuild
  rw [Chain.walk_collecting, sweep_collecting, chainNotes_collecting]
  rfl

/-- Collecting diagnostics influences nothing but the list of them. A resolution ends with the same
    error, or with a result that has the same table, trailer, revisions, exclusions and counts, and
    that lists all complaints if they are collected and none if they are not. Nor would it matter if
    complaints were dropped on the way, since no stage heeds those that were made before it. -/
theorem resolve_collecting :
    resolve { options with collect } file =
        (resolve options file).map
          (Resolution.listing (if collect then complaints options file else [])) ∧
      HeedlessStages options file := by
  refine ⟨?_, heedlessStages options file⟩
  rw [resolve_eq, resolve_eq, chainServes_collecting, rebuild_collecting, ofChain_collecting]
  by_cases hserves : chainServes options file
  · rw [if_pos hserves, if_pos hserves, complaints_of_chainServes hserves]
    rfl
  · rw [if_neg hserves, if_neg hserves]
    by_cases hrebuild : options.rebuild
    · rw [if_pos hrebuild, if_pos hrebuild]
      cases hrebuilt : rebuild options file with
      | error e => rfl
      | ok rebuilt =>
        rw [complaints_of_rebuild hserves hrebuild hrebuilt]
        exact congrArg Except.ok (ofRebuild_collecting options file collect rebuilt)
    · rw [if_neg hrebuild, if_neg hrebuild]
      rfl

end Resolve

end CrossReference
