import CrossReference.Proofs.Chain.Walk
import CrossReference.Proofs.Section.Extension

set_option autoImplicit false

/-! # The same route in another document

A walk that had nothing to complain about takes the same way in any document in which the sections
on its way are read alike, be it that the document goes on or that the reader insists on less. Each
of its links leads to a section, none of them was repaired, and every section was read to its end.
`Carries` is what has to be known about the sections, and `legsFrom_carry` puts the walk together,
by induction on the sections that may still be read. In the other document the walk may come behind
other sections, as long as these do not stand in the old one: then they cannot be met again. -/

namespace CrossReference

variable {options options' : Options} {file file' : Bytes} {later : List Nat}

/-- Whether sections that are read without complaints are read in the same way in another document
    and with other options. -/
structure Carries (options options' : Options) (file file' : Bytes) : Prop where
  probe : ∀ {offset : Nat} {kind : SectionKind},
    Section.probe options.toTolerance file offset = some kind →
    Section.probe options'.toTolerance file' offset = some kind
  stream : ∀ {offset : Nat} {s : Section.StreamSection},
    Section.readStream options.toTolerance file offset = (.ok s, []) →
    Section.readStream options'.toTolerance file' offset = (.ok s, [])
  table : ∀ {offset : Nat} {found : Nat × Dict Object} {draft : Section.Draft},
    offset ≤ file.length → Section.readTable options.toTolerance file offset = .ok found draft →
    draft.notes = [] →
    ∃ draft', Section.readTable options'.toTolerance file' offset = .ok found draft' ∧
      draft'.records = draft.records ∧ draft'.notes = []

/-! ## Links -/

namespace LinkRole

theorem lt_length_of_holds {role : LinkRole} {offset : Nat}
    (h : role.holds options file offset = true) : offset < file.length := by
  unfold holds at h
  rw [Option.any_eq_true] at h
  obtain ⟨kind, hkind, _⟩ := h
  exact Section.lt_length_of_probe hkind

theorem holds_carry (carries : Carries options options' file file') {role : LinkRole} {offset : Nat}
    (h : role.holds options file offset = true) : role.holds options' file' offset = true := by
  unfold holds at h ⊢
  rw [Option.any_eq_true] at h ⊢
  obtain ⟨kind, hkind, haccepts⟩ := h
  exact ⟨kind, carries.probe hkind, haccepts⟩

theorem holds_of_notes {role : LinkRole} {offset : Nat}
    (h : role.notes options file offset = []) : role.holds options file offset = true := by
  unfold notes at h
  split at h
  · assumption
  · cases h

theorem notes_of_holds {role : LinkRole} {offset : Nat}
    (h : role.holds options file offset = true) : role.notes options file offset = [] := by
  unfold notes
  rw [if_pos h]

theorem target?_of_holds {role : LinkRole} {offset : Nat} (visited : List Nat)
    (h : role.holds options file offset = true) :
    role.target? options file visited offset = some offset := by
  unfold target?
  rw [if_pos h]

end LinkRole

/-- Offsets behind a document do not matter to those inside it. -/
theorem contains_append_later (hlater : ∀ x ∈ later, file.length ≤ x) {offset : Nat}
    (h : offset < file.length) (visited : List Nat) :
    (visited ++ later).contains offset = visited.contains offset := by
  have hout : later.contains offset = false := by
    rw [List.contains_eq_mem, decide_eq_false_iff_not]
    intro hmem
    have hle := hlater offset hmem
    omega
  rw [List.contains_append, hout, Bool.or_false]

namespace Leg

/-- A link to an older section without complaints: there is none, or it holds. -/
theorem prevLink_cases {visited : List Nat} {trailer : Dict Object}
    (h : (prevLink options file visited trailer).2 = []) :
    (∀ options' file' visited', prevLink options' file' visited' trailer = (none, [])) ∨
    ∃ offset, LinkRole.prev.holds options file offset = true ∧
      ∀ options' file' visited', LinkRole.prev.holds options' file' offset = true →
        prevLink options' file' visited' trailer = (some offset, []) := by
  unfold prevLink at h ⊢
  rcases htrailer : trailer.get? "Prev" with _ | x
  · exact Or.inl fun _ _ _ => rfl
  · rw [htrailer] at h
    cases x with
    | integer i =>
      rcases i with n | n
      · cases n with
        | zero => exact Or.inl fun _ _ _ => rfl
        | succ n =>
          refine Or.inr ⟨n + 1, LinkRole.holds_of_notes h, ?_⟩
          intro options' file' visited' hholds
          change (LinkRole.prev.target? options' file' visited' (n + 1),
            LinkRole.prev.notes options' file' (n + 1)) = _
          rw [LinkRole.target?_of_holds visited' hholds, LinkRole.notes_of_holds hholds]
      · cases h
    | _ => cases h

theorem prevLink_carry (carries : Carries options options' file file') {visited : List Nat}
    {trailer : Dict Object} (h : (prevLink options file visited trailer).2 = [])
    (visited' : List Nat) :
    prevLink options' file' visited' trailer = prevLink options file visited trailer := by
  rcases prevLink_cases h with hnone | ⟨offset, hholds, hlink⟩
  · rw [hnone, hnone]
  · rw [hlink _ _ _ hholds, hlink _ _ _ (LinkRole.holds_carry carries hholds)]

theorem lt_length_of_prevLink {visited : List Nat} {trailer : Dict Object}
    (h : (prevLink options file visited trailer).2 = []) {next : Nat}
    (hnext : (prevLink options file visited trailer).1 = some next) : next < file.length := by
  rcases prevLink_cases h with hnone | ⟨offset, hholds, hlink⟩
  · rw [hnone] at hnext
    cases hnext
  · rw [hlink _ _ _ hholds] at hnext
    obtain rfl := Option.some.inj hnext
    exact LinkRole.lt_length_of_holds hholds

/-- Complaints about a link to a companion begin with the one about the place it leads to. -/
theorem notes_companionLink {visited : List Nat} {trailer : Dict Object} {n : Nat}
    (h : trailer.get? "XRefStm" = some (.integer (.ofNat (n + 1)))) :
    ∃ more, (companionLink options file visited trailer).2 =
      LinkRole.companion.notes options file (n + 1) ++ more := by
  unfold companionLink
  rw [h]
  dsimp only
  split
  · exact ⟨[], (List.append_nil _).symm⟩
  · split
    · exact ⟨_, rfl⟩
    · exact ⟨[], (List.append_nil _).symm⟩

theorem companionLink_carry (carries : Carries options options' file file')
    (hlater : ∀ x ∈ later, file.length ≤ x) {visited : List Nat} {trailer : Dict Object}
    (h : (companionLink options file visited trailer).2 = []) :
    companionLink options' file' (visited ++ later) trailer =
      companionLink options file visited trailer := by
  have hnotes {n : Nat} (htrailer : trailer.get? "XRefStm" = some (.integer (.ofNat (n + 1)))) :
      LinkRole.companion.notes options file (n + 1) = [] := by
    obtain ⟨more, hmore⟩ := notes_companionLink htrailer
    rw [hmore] at h
    exact (List.append_eq_nil_iff.mp h).1
  unfold companionLink at h ⊢
  split at h
  · rfl
  · -- without complaints the companion is where the link says, and not followed before
    rename_i n htrailer
    have hholds := LinkRole.holds_of_notes (hnotes htrailer)
    have hholds' : LinkRole.companion.holds options' file' (n + 1) = true :=
      LinkRole.holds_carry carries hholds
    dsimp only
    rw [LinkRole.target?_of_holds _ hholds', LinkRole.notes_of_holds hholds',
      LinkRole.target?_of_holds _ hholds, hnotes htrailer]
    dsimp only
    rw [contains_append_later hlater (LinkRole.lt_length_of_holds hholds)]
  · cases h

/-! ## Sections -/

theorem ofStream_carry (carries : Carries options options' file file') {fault : String}
    {offset : Nat} (h : (ofStream file options.toTolerance fault offset).notes = []) :
    ofStream file' options'.toTolerance fault offset =
      ofStream file options.toTolerance fault offset := by
  unfold ofStream at h ⊢
  cases hread : Section.readStream options.toTolerance file offset with
  | mk result notes =>
    rw [hread] at h
    cases result with
    | error e => exact absurd h (by simp)
    | ok s =>
      obtain rfl : notes = [] := h
      rw [carries.stream hread]

theorem stream_carry (carries : Carries options options' file file') {visited : List Nat}
    {offset : Nat} (h : (stream options file visited offset).notes = []) (visited' : List Nat) :
    stream options' file' visited' offset = stream options file visited offset := by
  have hown :
      (ofStream file options.toTolerance "Xref stream is unusable: " offset).notes = [] := by
    unfold stream at h
    dsimp only at h
    split at h
    · exact (List.append_eq_nil_iff.mp h).1
    · exact h
  unfold stream at h ⊢
  dsimp only at h ⊢
  rw [ofStream_carry carries hown]
  split
  · rename_i trailer _ _ htrailers
    rw [htrailers] at h
    unfold followedBy
    rw [prevLink_carry carries (List.append_eq_nil_iff.mp h).2 visited']
  · rfl

/-- Complaints about a table, about the link to its companion, and about the companion. -/
theorem notes_withCompanion (l : Leg) (visited : List Nat) (trailer : Dict Object) :
    ∃ more, (l.withCompanion options file visited trailer).notes =
      l.notes ++ (companionLink options file visited trailer).2 ++ more := by
  unfold withCompanion
  split
  · rename_i notes hlink
    exact ⟨[], by rw [hlink, List.append_nil]⟩
  · rename_i companion notes hlink
    exact ⟨_, by rw [hlink]⟩

theorem notes_of_withCompanion {l : Leg} {visited : List Nat} {trailer : Dict Object}
    (h : (l.withCompanion options file visited trailer).notes = []) :
    l.notes = [] ∧ (companionLink options file visited trailer).2 = [] := by
  obtain ⟨more, hmore⟩ := notes_withCompanion l visited trailer
  rw [hmore] at h
  exact List.append_eq_nil_iff.mp (List.append_eq_nil_iff.mp h).1

theorem withCompanion_carry (carries : Carries options options' file file')
    (hlater : ∀ x ∈ later, file.length ≤ x) {l : Leg} {visited : List Nat} {trailer : Dict Object}
    (h : (l.withCompanion options file visited trailer).notes = []) :
    l.withCompanion options' file' (visited ++ later) trailer =
      l.withCompanion options file visited trailer := by
  have hlink := (notes_of_withCompanion h).2
  unfold withCompanion at h ⊢
  rw [companionLink_carry carries hlater hlink]
  split
  · rfl
  · rename_i companion notes hcompanion
    rw [hcompanion] at h
    rw [ofStream_carry carries (List.append_eq_nil_iff.mp h).2]

theorem table_carry (carries : Carries options options' file file')
    (hlater : ∀ x ∈ later, file.length ≤ x) {visited : List Nat} {offset : Nat}
    (hoffset : offset ≤ file.length) (h : (table options file visited offset).notes = []) :
    table options' file' (visited ++ later) offset = table options file visited offset := by
  unfold table at h ⊢
  cases hread : Section.readTable options.toTolerance file offset with
  | error e draft =>
    rw [hread] at h
    exact absurd h (by simp)
  | ok found draft =>
    obtain ⟨trailerOffset, trailer⟩ := found
    rw [hread] at h
    dsimp only [followedBy] at h ⊢
    obtain ⟨hown, hprev⟩ := List.append_eq_nil_iff.mp h
    have hnotes : draft.notes = [] := (notes_of_withCompanion hown).1
    obtain ⟨draft', hread', hrecords', hnotes'⟩ := carries.table hoffset hread hnotes
    rw [hread']
    dsimp only
    rw [hrecords', hnotes', ← hnotes, withCompanion_carry carries hlater hown,
      prevLink_carry carries hprev]

theorem read_carry (carries : Carries options options' file file')
    (hlater : ∀ x ∈ later, file.length ≤ x) {visited : List Nat} {offset : Nat}
    (h : (read options file visited offset).notes = []) :
    read options' file' (visited ++ later) offset = read options file visited offset := by
  unfold read at h ⊢
  cases hform : Section.probe options.toTolerance file offset with
  | none =>
    rw [hform] at h
    exact absurd h (by simp)
  | some kind =>
    rw [hform] at h
    rw [carries.probe hform]
    cases kind with
    | table =>
      exact table_carry carries hlater (Nat.le_of_lt (Section.lt_length_of_probe hform)) h
    | stream => exact stream_carry carries h _

theorem next_ofStream (tolerance : Tolerance) (fault : String) (offset : Nat) :
    (ofStream file tolerance fault offset).next = none := by
  unfold ofStream
  split <;> rfl

/-- A leg without complaints leads to a place inside the document. -/
theorem next_lt_length {visited : List Nat} {offset next : Nat}
    (h : (read options file visited offset).notes = [])
    (hnext : (read options file visited offset).next = some next) : next < file.length := by
  unfold read at h hnext
  split at hnext
  · rename_i hform
    simp only [hform] at h
    unfold table at h hnext
    cases hread : Section.readTable options.toTolerance file offset with
    | error e draft =>
      rw [hread] at hnext
      cases hnext
    | ok found draft =>
      rw [hread] at h hnext
      exact lt_length_of_prevLink (List.append_eq_nil_iff.mp h).2 hnext
  · rename_i hform
    simp only [hform] at h
    unfold stream at h hnext
    dsimp only at h hnext
    split at hnext
    · rename_i trailer _ _ htrailers
      rw [htrailers] at h
      exact lt_length_of_prevLink (List.append_eq_nil_iff.mp h).2 hnext
    · rw [next_ofStream] at hnext
      cases hnext
  · cases hnext

end Leg

/-! ## The route -/

namespace Route

theorem legs_of_start {offset : Nat} (h : start? options file = some offset) :
    legs options file = legsFrom options file [] offset options.maxRevisions := by
  unfold legs
  rw [h]

theorem ending_of_start {offset : Nat} (h : start? options file = some offset) :
    ending options file = endingFrom options file [] offset options.maxRevisions := by
  unfold ending
  rw [h]

theorem legsFrom_of_new {visited : List Nat} {offset left : Nat}
    (hnew : visited.contains offset = false) :
    legsFrom options file visited offset (left + 1) =
      let l := Leg.read options file (offset :: visited) offset
      l :: match l.next with
        | none => []
        | some next => legsFrom options file (follow (offset :: visited) l) next left := by
  rw [legsFrom]
  exact if_neg (Bool.eq_false_iff.mp hnew)

theorem endingFrom_of_new {visited : List Nat} {offset left : Nat}
    (hnew : visited.contains offset = false) :
    endingFrom options file visited offset (left + 1) =
      let l := Leg.read options file (offset :: visited) offset
      match l.next with
      | none => .last
      | some next => endingFrom options file (follow (offset :: visited) l) next left := by
  rw [endingFrom]
  exact if_neg (Bool.eq_false_iff.mp hnew)

/-- A walk without complaints reads the same sections in the other document, if it may read as
    many. -/
theorem legsFrom_carry (carries : Carries options options' file file')
    (hlater : ∀ x ∈ later, file.length ≤ x)
    {left left' offset : Nat} {visited : List Nat} (hoffset : offset < file.length)
    (hquiet : ∀ l ∈ legsFrom options file visited offset left, l.notes = [])
    (hlast : endingFrom options file visited offset left = .last)
    (henough : (legsFrom options file visited offset left).length ≤ left') :
    legsFrom options' file' (visited ++ later) offset left' =
      legsFrom options file visited offset left ∧
    endingFrom options' file' (visited ++ later) offset left' = .last := by
  induction left generalizing visited offset left' with
  | zero =>
    unfold endingFrom at hlast
    split at hlast <;> cases hlast
  | succ left ih =>
    cases hnew : visited.contains offset with
    | true =>
      unfold endingFrom at hlast
      rw [hnew] at hlast
      cases hlast
    | false =>
      have hnew' : (visited ++ later).contains offset = false := by
        rw [contains_append_later hlater hoffset, hnew]
      rw [legsFrom_of_new hnew] at hquiet henough ⊢
      rw [endingFrom_of_new hnew] at hlast
      dsimp only at hquiet henough hlast ⊢
      obtain ⟨left', rfl⟩ : ∃ n, left' = n + 1 :=
        ⟨left' - 1, by rw [List.length_cons] at henough; omega⟩
      have hnotes := hquiet _ List.mem_cons_self
      have hread : Leg.read options' file' ((offset :: visited) ++ later) offset =
          Leg.read options file (offset :: visited) offset :=
        Leg.read_carry carries hlater hnotes
      rw [legsFrom_of_new hnew', endingFrom_of_new hnew', ← List.cons_append, hread]
      dsimp only
      cases hnext : (Leg.read options file (offset :: visited) offset).next with
      | none => exact ⟨rfl, rfl⟩
      | some next =>
        rw [hnext] at hquiet henough hlast
        dsimp only at hquiet henough hlast ⊢
        rw [List.length_cons, Nat.add_le_add_iff_right] at henough
        -- what the newer part has followed stays behind all that is added
        have hfollow : ∀ l : Leg, follow ((offset :: visited) ++ later) l =
            follow (offset :: visited) l ++ later := by
          intro l
          rw [follow, follow, List.append_assoc]
        obtain ⟨hlegs, hending⟩ := ih (Leg.next_lt_length hnotes hnext)
          (fun l hl => hquiet l (List.mem_cons_of_mem _ hl)) hlast henough
        rw [hfollow, hlegs]
        exact ⟨rfl, hending⟩

end Route

/-! ## Complaints of a walk -/

namespace Chain

theorem notes_foldl_absorb (legs : List Leg) (ch : Chain) :
    (legs.foldl absorb ch).notes = ch.notes ++ legs.flatMap (·.notes) := by
  induction legs generalizing ch with
  | nil => simp
  | cons l rest ih =>
    have hstep : (ch.absorb l).notes = ch.notes ++ l.notes := rfl
    rw [List.foldl_cons, ih, hstep, List.append_assoc, List.flatMap_cons]

theorem notes_walk (options : Options) (file : Bytes) :
    (walk options file).notes =
      Route.startNotes options file ++ (Route.legs options file).flatMap (·.notes) ++
        (Route.ending options file).notes options := by
  have hfold := notes_foldl_absorb (Route.legs options file) (outset options file)
  rw [walk_eq]
  change ((Route.legs options file).foldl absorb (outset options file)).notes ++ _ = _
  rw [hfold]
  rfl

end Chain

theorem Ending.eq_last_of_notes {e : Ending} (h : e.notes options = []) : e = .last := by
  cases e with
  | last => rfl
  | _ => cases h

end CrossReference
