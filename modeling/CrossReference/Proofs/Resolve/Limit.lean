import CrossReference.Proofs.Chain.Precedence
import CrossReference.Proofs.Chain.Trailers
import CrossReference.Proofs.Table.Entries

set_option autoImplicit false

/-! # How many sections may be read

The number of sections that may be read one after the other says where a walk stops, and nothing
else. A walk that may read more takes the same way and goes on behind it: the legs of the shorter
route are the first legs of the longer one (`legs_limited_prefix`), whatever was repaired or hidden
in a companion on the way. Since of several entries or trailers the first one counts, nothing that
the shorter walk gave is changed. -/

namespace CrossReference

variable {options options' : Options} {file : Bytes} {limit limit' : Nat}

/-! ## The route -/

/-- What a walk gets from a section does not depend on how many it may read. -/
theorem Leg.read_limited (visited : List Nat) (offset : Nat) :
    read { options with maxRevisions := limit } file visited offset =
      read options file visited offset := rfl

namespace Route

theorem legsFrom_limited_prefix {left left' : Nat} (h : left ≤ left') (visited : List Nat)
    (offset : Nat) :
    legsFrom { options with maxRevisions := limit } file visited offset left <+:
      legsFrom { options with maxRevisions := limit' } file visited offset left' := by
  induction left generalizing left' visited offset with
  | zero => exact List.nil_prefix
  | succ left ih =>
    obtain ⟨left', rfl⟩ : ∃ n, left' = n + 1 := ⟨left' - 1, by omega⟩
    cases hnew : visited.contains offset with
    | true => simp only [legsFrom, hnew, if_true, List.prefix_rfl]
    | false =>
      simp only [legsFrom, hnew, Bool.false_eq_true, if_false, Leg.read_limited,
        List.cons_prefix_cons, true_and]
      cases (Leg.read options file (offset :: visited) offset).next with
      | none => exact List.prefix_rfl
      | some next => exact ih (Nat.le_of_succ_le_succ h) _ next

/-- A walk that may read more sections begins with those that it reads if it may read fewer. -/
theorem legs_limited_prefix (h : limit ≤ limit') :
    legs { options with maxRevisions := limit } file <+:
      legs { options with maxRevisions := limit' } file := by
  have hstart : ∀ n, start? { options with maxRevisions := n } file = start? options file :=
    fun _ => rfl
  simp only [legs, hstart]
  cases start? options file with
  | none => exact List.prefix_rfl
  | some offset => exact legsFrom_limited_prefix h [] offset

end Route

/-! ## The walk -/

namespace Chain

variable (longer : Route.legs options file <+: Route.legs options' file)

include longer

theorem get?_walk_of_prefix {k : Key} {e : Entry} (h : (walk options file).table.get? k = some e) :
    (walk options' file).table.get? k = some e := by
  obtain ⟨more, hmore⟩ := longer
  rw [get?_walk] at h ⊢
  rw [← hmore, List.findSome?_append, h, Option.some_or]

theorem get?_trailer_of_prefix {n : Name} {value : Object}
    (h : (walk options file).trailer.get? n = some value) :
    (walk options' file).trailer.get? n = some value := by
  obtain ⟨more, hmore⟩ := longer
  rw [trailer_walk] at h ⊢
  rw [← hmore, List.flatMap_append, List.foldl_append]
  exact Trailer.get?_foldl_merge h _

theorem revisions_of_prefix : (walk options file).revisions <+: (walk options' file).revisions := by
  obtain ⟨more, hmore⟩ := longer
  rw [revisions_walk, revisions_walk, ← hmore, List.flatMap_append]
  exact List.prefix_append _ _

end Chain

/-! ## The resolution -/

namespace Resolve

/-- If offsets are not verified, the result of a chain has the table of the walk. -/
theorem table_ofChain_of_not_verify (hv : options.verifyOffsets = false) :
    (ofChain options file).table = (Chain.walk options file).table := by
  simp only [ofChain, sweep_of_not_verify hv]

/-- If offsets are not verified, a chain is of use if it lists anything. -/
theorem chainServes_of_not_verify (hv : options.verifyOffsets = false) :
    chainServes options file = true ↔
      ∃ k e, (Chain.walk options file).table.get? k = some e := by
  have hserves : chainServes options file = !(Chain.walk options file).table.isEmpty := by
    rw [chainServes, sweep_of_not_verify hv]
    exact Bool.and_true _
  rw [hserves, Bool.not_eq_true', ← Bool.not_eq_true, Table.isEmpty_iff]
  simp only [Classical.not_forall, Option.ne_none_iff_exists', ← ne_eq]

/-- Where offsets are not verified and the chain is of use, it also is if more sections may be read.
    Every entry of the table, every value of the trailer and every section that the shorter chain
    gave is still there, these sections in front. -/
theorem limit_truncates (more : limit ≤ limit') (unverified : options.verifyOffsets = false)
    {r : Resolution} (resolved : resolve { options with maxRevisions := limit } file = .ok r)
    (unrebuilt : r.recovery = none) :
    ∃ r', resolve { options with maxRevisions := limit' } file = .ok r' ∧ r'.recovery = none ∧
      (∀ k e, r.table.get? k = some e → r'.table.get? k = some e) ∧
      (∀ n value, r.trailer.get? n = some value → r'.trailer.get? n = some value) ∧
      r.revisions <+: r'.revisions := by
  have longer : Route.legs { options with maxRevisions := limit } file <+:
      Route.legs { options with maxRevisions := limit' } file := Route.legs_limited_prefix more
  have never (n : Nat) : ({ options with maxRevisions := n } : Options).verifyOffsets = false :=
    unverified
  obtain ⟨serves, rfl⟩ :
      chainServes { options with maxRevisions := limit } file = true ∧
        r = ofChain { options with maxRevisions := limit } file := by
    rcases resolve_eq_ok resolved with h | ⟨_, _, rebuilt, _, rfl⟩
    · exact h
    · cases unrebuilt
  have serves' : chainServes { options with maxRevisions := limit' } file = true := by
    -- an entry that keeps up the shorter chain keeps up the longer one
    obtain ⟨k, e, he⟩ := (chainServes_of_not_verify (never limit)).mp serves
    have he' := Chain.get?_walk_of_prefix longer he
    exact (chainServes_of_not_verify (never limit')).mpr ⟨k, e, he'⟩
  have resolved' : resolve { options with maxRevisions := limit' } file =
      .ok (ofChain { options with maxRevisions := limit' } file) := by
    rw [resolve_eq, if_pos serves']
  refine ⟨_, resolved', rfl, ?_, ?_, ?_⟩
  · intro k e he
    rw [table_ofChain_of_not_verify (never limit)] at he
    rw [table_ofChain_of_not_verify (never limit')]
    exact Chain.get?_walk_of_prefix longer he
  · intro n value hvalue
    exact Chain.get?_trailer_of_prefix longer hvalue
  · exact Chain.revisions_of_prefix longer

/-- The newest table of the document and its companion, if one section may be read, and the older
    table behind them, if two may be. -/
theorem hybridDocument_truncated :
    let options : Options := { Options.lenient with verifyOffsets := false }
    ∃ r r', resolve { options with maxRevisions := 1 } hybridDocument = .ok r ∧
      resolve { options with maxRevisions := 2 } hybridDocument = .ok r' ∧
      r.table.toList = [(⟨1, 0⟩, .direct 21), (⟨3, 0⟩, .direct 23)] ∧
      r'.table.toList =
        [(⟨1, 0⟩, .direct 21), (⟨2, 0⟩, .direct 12), (⟨3, 0⟩, .direct 23)] ∧
      (∀ k e, r.table.get? k = some e → r'.table.get? k = some e) ∧
      r.revisions.length = 2 ∧ r'.revisions.length = 3 ∧ r.revisions <+: r'.revisions := by
  intro options
  have run : chainServes { options with maxRevisions := 1 } hybridDocument = true ∧
      (ofChain { options with maxRevisions := 1 } hybridDocument).table.toList =
        [(⟨1, 0⟩, .direct 21), (⟨3, 0⟩, .direct 23)] ∧
      (ofChain { options with maxRevisions := 1 } hybridDocument).revisions.length = 2 := by
    decide +kernel
  have run' :
      (ofChain { options with maxRevisions := 2 } hybridDocument).table.toList =
        [(⟨1, 0⟩, .direct 21), (⟨2, 0⟩, .direct 12), (⟨3, 0⟩, .direct 23)] ∧
      (ofChain { options with maxRevisions := 2 } hybridDocument).revisions.length = 3 := by
    decide +kernel
  have resolved : resolve { options with maxRevisions := 1 } hybridDocument =
      .ok (ofChain { options with maxRevisions := 1 } hybridDocument) := by
    rw [resolve_eq, if_pos run.1]
  obtain ⟨r', resolved', unrebuilt', entries, _, revisions⟩ :=
    limit_truncates (by decide : 1 ≤ 2) rfl resolved rfl
  obtain rfl := eq_ofChain resolved' unrebuilt'
  exact ⟨_, _, resolved, resolved', run.2.1, run'.1, entries, run.2.2, run'.2, revisions⟩

end Resolve

end CrossReference
