import CrossReference.Proofs.Chain.Extension
import CrossReference.Proofs.Chain.Precedence
import CrossReference.Proofs.Trailer.Merging

set_option autoImplicit false

/-! # Walks that end

A walk ends however the links of a document are tangled, and for two reasons. The sections that it
follows one after the other are counted. And every section that it reads, be it the companion of a
table, stands at an offset that was not followed before (`nodup_sites_legsFrom`), so a link that
leads back stops it (`endingFrom_of_visited`).

An offset is only taken up if a section stands there. This is not a test that the walk makes when it
comes to an offset, but holds wherever one can come from: of the link itself, which was probed, and
of a repair, which only knows sections (`LinkRole.holds_of_target?`). -/

namespace CrossReference

variable {options : Options} {file : Bytes}

/-! ## Where links lead -/

namespace Repair

theorem mem_of_nearest? {offset found : Nat} {candidates : List Nat}
    (h : nearest? offset candidates = some found) : found ∈ candidates := by
  induction candidates generalizing found with
  | nil => cases h
  | cons candidate rest ih =>
    unfold nearest? at h
    split at h
    · rw [← Option.some.inj h]
      exact List.mem_cons_self
    · rename_i other hother
      split at h
      · rw [← Option.some.inj h]
        exact List.mem_cons_of_mem candidate (ih hother)
      · rw [← Option.some.inj h]
        exact List.mem_cons_self

/-- A candidate is a section of the form with which it is listed. -/
theorem probe_of_mem_candidates {tolerance : Tolerance} {offset : Nat} {kind : SectionKind}
    (h : (offset, kind) ∈ candidates tolerance file) :
    Section.probe tolerance file offset = some kind := by
  unfold candidates at h
  dsimp only at h
  rcases List.mem_append.mp h with htable | hstream
  · obtain ⟨offset', hmem, hpair⟩ := List.mem_map.mp htable
    obtain ⟨rfl, rfl⟩ := Prod.mk.inj hpair
    simpa using (List.mem_filter.mp hmem).2
  · obtain ⟨e, hmem, hpair⟩ := List.mem_map.mp hstream
    obtain ⟨rfl, rfl⟩ := Prod.mk.inj hpair
    have hboth := (List.mem_filter.mp hmem).2
    rw [Bool.and_eq_true, decide_eq_true_eq] at hboth
    exact hboth.2

theorem holds_of_substitute? {visited : List Nat} {role : LinkRole} {offset found : Nat}
    (h : substitute? options file visited role offset = some found) :
    role.holds options file found = true ∧ found ∉ visited := by
  unfold substitute? at h
  rw [Option.ite_none_right_eq_some] at h
  obtain ⟨⟨_, kind⟩, hmem, rfl⟩ := List.mem_map.mp (mem_of_nearest? h.2)
  obtain ⟨hcandidate, haccepts⟩ := List.mem_filter.mp hmem
  rw [Bool.and_eq_true, Bool.not_eq_true', List.contains_eq_mem, decide_eq_false_iff_not]
    at haccepts
  refine ⟨?_, haccepts.2⟩
  rw [LinkRole.holds, probe_of_mem_candidates hcandidate]
  exact haccepts.1

end Repair

namespace LinkRole

/-- Where a link leads, a section stands that it accepts. -/
theorem holds_of_target? {role : LinkRole} {visited : List Nat} {offset found : Nat}
    (h : role.target? options file visited offset = some found) :
    role.holds options file found = true := by
  unfold target? at h
  split at h
  · rename_i hholds
    rwa [← Option.some.inj h]
  · exact (Repair.holds_of_substitute? h).1

theorem probe_of_holds {role : LinkRole} {offset : Nat}
    (h : role.holds options file offset = true) :
    ∃ kind, Section.probe options.toTolerance file offset = some kind := by
  unfold holds at h
  rw [Option.any_eq_true] at h
  obtain ⟨kind, hkind, _⟩ := h
  exact ⟨kind, hkind⟩

end LinkRole

/-! ## One leg -/

namespace Leg

theorem holds_of_prevLink {visited : List Nat} {trailer : Dict Object} {next : Nat}
    (h : (prevLink options file visited trailer).1 = some next) :
    LinkRole.prev.holds options file next = true := by
  unfold prevLink at h
  split at h
  · cases h
  · cases h
  · exact LinkRole.holds_of_target? h
  · cases h

theorem holds_of_companionLink {visited : List Nat} {trailer : Dict Object} {companion : Nat}
    (h : (companionLink options file visited trailer).1 = some companion) :
    LinkRole.companion.holds options file companion = true ∧ companion ∉ visited := by
  unfold companionLink at h
  split at h
  · cases h
  · dsimp only at h
    split at h
    · cases h
    · rename_i found htarget
      split at h
      · cases h
      · rename_i hnew
        obtain rfl := Option.some.inj h
        refine ⟨LinkRole.holds_of_target? htarget, fun hmem => hnew ?_⟩
        rwa [List.contains_eq_mem, decide_eq_true_eq]
  · cases h

/-- The offsets of the sections that a leg reads: its own, and that of a companion. -/
def sites (l : Leg) : List Nat := l.offset :: l.companion.toList

variable (options file) in
/-- What a walk relies on in a leg behind so many offsets that were followed. -/
structure Sound (visited : List Nat) (l : Leg) : Prop where
  /-- A companion is a section that was not followed before. -/
  companion : ∀ offset, l.companion = some offset →
    LinkRole.companion.holds options file offset = true ∧ offset ∉ visited
  /-- The walk goes on at a section. -/
  next : ∀ offset, l.next = some offset → LinkRole.prev.holds options file offset = true
  /-- Nothing is listed as read but what was read, each section once. -/
  revisions : (l.revisions.map (·.offset)).Sublist l.sites

variable (options file) in
theorem sound_ofStream (tolerance : Tolerance) (fault : String) (offset : Nat)
    (visited : List Nat) : Sound options file visited (ofStream file tolerance fault offset) := by
  unfold ofStream
  split
  · exact ⟨nofun, nofun, List.nil_sublist _⟩
  · exact ⟨nofun, nofun, List.Sublist.refl _⟩

theorem Sound.followedBy {visited : List Nat} {l : Leg} (h : Sound options file visited l)
    (visited' : List Nat) (trailer : Dict Object) :
    Sound options file visited (l.followedBy options file visited' trailer) :=
  ⟨h.companion, fun _ hnext => holds_of_prevLink hnext, h.revisions⟩

/-- A companion adds its own section at most. -/
theorem sound_withCompanion {visited : List Nat} {l : Leg} (hcompanion : l.companion = none)
    (hnext : l.next = none) (hrevisions : l.revisions.map (·.offset) = [l.offset])
    (trailer : Dict Object) :
    Sound options file visited (l.withCompanion options file visited trailer) := by
  unfold withCompanion
  split
  · refine ⟨?_, ?_, ?_⟩
    · intro offset h
      rw [hcompanion] at h
      cases h
    · intro offset h
      rw [hnext] at h
      cases h
    · rw [sites, hcompanion, hrevisions]
      exact List.Sublist.refl _
  · rename_i found notes hlink
    have hfound : (companionLink options file visited trailer).1 = some found := by rw [hlink]
    refine ⟨?_, ?_, ?_⟩
    · intro offset h
      obtain rfl := Option.some.inj h
      exact holds_of_companionLink hfound
    · intro offset h
      rw [hnext] at h
      cases h
    · have hstream := (sound_ofStream options file options.toTolerance
        "Hybrid xref stream is unusable: " found visited).revisions
      have hnone : (ofStream file options.toTolerance "Hybrid xref stream is unusable: "
          found).companion = none := by
        unfold ofStream
        split <;> rfl
      rw [sites, hnone, offset_ofStream] at hstream
      rw [List.map_append, hrevisions]
      exact hstream.cons_cons l.offset

variable (options file) in
theorem sound_read (visited : List Nat) (offset : Nat) :
    Sound options file visited (read options file visited offset) := by
  unfold read
  split
  · unfold table
    split
    · exact ⟨nofun, nofun, List.nil_sublist _⟩
    · exact (sound_withCompanion rfl rfl rfl _).followedBy _ _
  · unfold stream
    dsimp only
    split
    · exact (sound_ofStream _ _ _ _ _ _).followedBy _ _
    · exact sound_ofStream _ _ _ _ _ _
  · exact ⟨nofun, nofun, List.nil_sublist _⟩

/-- A leg behind offsets that were followed takes its own sites from among the others. -/
theorem Sound.nodup_sites {visited : List Nat} {l : Leg}
    (h : Sound options file (l.offset :: visited) l) (hnew : l.offset ∉ visited) :
    l.sites.Nodup ∧ ∀ site ∈ l.sites, site ∉ visited := by
  unfold sites
  cases hcompanion : l.companion with
  | none => simpa using hnew
  | some companion =>
    have hother := (h.companion companion hcompanion).2
    rw [List.mem_cons, not_or] at hother
    simp [hnew, hother.2, Ne.symm hother.1]

/-- A section stands wherever a leg reads one, if one stands at the offset of the leg. -/
theorem Sound.probe_sites {visited : List Nat} {l : Leg} (h : Sound options file visited l)
    (hoffset : ∃ kind, Section.probe options.toTolerance file l.offset = some kind) :
    ∀ site ∈ l.sites, ∃ kind, Section.probe options.toTolerance file site = some kind := by
  intro site hsite
  rcases List.mem_cons.mp hsite with rfl | hsite
  · exact hoffset
  · rw [Option.mem_toList] at hsite
    exact LinkRole.probe_of_holds (h.companion site hsite).1

end Leg

/-! ## The route -/

/-- The offset at which a walk ends without reading a section there. -/
def Ending.offset? : Ending → Option Nat
  | last => none
  | cycle offset => some offset
  | limit offset => some offset

namespace Route

theorem mem_follow {visited : List Nat} {l : Leg} {site : Nat} :
    site ∈ follow (l.offset :: visited) l ↔ site ∈ l.sites ∨ site ∈ visited := by
  rw [follow, Leg.sites, List.mem_append, List.mem_cons, List.mem_cons]
  exact or_left_comm.trans or_assoc.symm

variable (options file) in
/-- A walk that goes on at an offset, step by step: the offsets that were followed, where it goes
    on, how many sections it may still read, and then its legs and its ending. -/
inductive Course : List Nat → Nat → Nat → List Leg → Ending → Prop where
  /-- The offset was followed before. -/
  | cycle {visited : List Nat} {offset left : Nat} (old : offset ∈ visited) :
    Course visited offset left [] (.cycle offset)
  /-- No more sections may be read. -/
  | limit {visited : List Nat} {offset : Nat} (new : offset ∉ visited) :
    Course visited offset 0 [] (.limit offset)
  /-- The section leads nowhere. -/
  | last {visited : List Nat} {left : Nat} {l : Leg} (new : l.offset ∉ visited)
    (sound : l.Sound options file (l.offset :: visited)) (link : l.next = none) :
    Course visited l.offset (left + 1) [l] .last
  /-- The section leads on. -/
  | step {visited : List Nat} {left : Nat} {l : Leg} {next : Nat} {legs : List Leg}
    {ending : Ending} (new : l.offset ∉ visited)
    (sound : l.Sound options file (l.offset :: visited)) (link : l.next = some next)
    (rest : Course (follow (l.offset :: visited) l) next left legs ending) :
    Course visited l.offset (left + 1) (l :: legs) ending

theorem course_legsFrom (visited : List Nat) (offset left : Nat) :
    Course options file visited offset left (legsFrom options file visited offset left)
      (endingFrom options file visited offset left) := by
  induction left generalizing visited offset with
  | zero =>
    unfold legsFrom endingFrom
    split
    · rename_i hold
      exact .cycle (List.contains_iff_mem.mp hold)
    · rename_i hnew
      exact .limit fun hmem => hnew (List.contains_iff_mem.mpr hmem)
  | succ left ih =>
    cases hnew : visited.contains offset with
    | true =>
      unfold legsFrom endingFrom
      rw [if_pos hnew, if_pos hnew]
      exact .cycle (List.contains_iff_mem.mp hnew)
    | false =>
      rw [legsFrom_of_new hnew, endingFrom_of_new hnew]
      have hsound := Leg.sound_read options file (offset :: visited) offset
      have hoffset := Leg.offset_read options file (offset :: visited) offset
      generalize Leg.read options file (offset :: visited) offset = l at hsound hoffset ⊢
      subst hoffset
      have hnew' : l.offset ∉ visited := fun hmem => by
        rw [List.contains_iff_mem.mpr hmem] at hnew
        cases hnew
      cases hnext : l.next with
      | none => simpa only [hnext] using .last hnew' hsound hnext
      | some next => simpa only [hnext] using .step hnew' hsound hnext (ih _ _)

variable {visited : List Nat} {offset left : Nat} {legs : List Leg} {ending : Ending}

theorem Course.length_le (h : Course options file visited offset left legs ending) :
    legs.length ≤ left := by
  induction h with
  | cycle | limit => exact Nat.zero_le _
  | last => exact Nat.succ_le_succ (Nat.zero_le _)
  | step _ _ _ _ ih => exact Nat.succ_le_succ ih

/-- All sections that a walk reads stand at offsets of their own, which were not followed before. -/
theorem Course.nodup_sites (h : Course options file visited offset left legs ending) :
    (legs.flatMap Leg.sites).Nodup ∧ ∀ site ∈ legs.flatMap Leg.sites, site ∉ visited := by
  induction h with
  | cycle | limit => simp
  | last new sound _ => simpa using sound.nodup_sites new
  | @step visited left l next legs ending new sound _ _ ih =>
    obtain ⟨hown, hfresh⟩ := sound.nodup_sites new
    obtain ⟨hrest, hlater⟩ := ih
    -- what the rest of the walk reads was followed neither before nor by this leg
    have hapart : ∀ site ∈ legs.flatMap Leg.sites, site ∉ l.sites ∧ site ∉ visited := by
      intro site hsite
      have hout := hlater site hsite
      rwa [mem_follow, not_or] at hout
    rw [List.flatMap_cons]
    constructor
    · refine List.nodup_append.mpr ⟨hown, hrest, fun site hsite site' hsite' heq => ?_⟩
      exact (hapart site' hsite').1 (heq ▸ hsite)
    · intro site hsite
      rcases List.mem_append.mp hsite with hsite | hsite
      · exact hfresh site hsite
      · exact (hapart site hsite).2

theorem Course.revisions_sublist (h : Course options file visited offset left legs ending) :
    ∀ l ∈ legs, (l.revisions.map (·.offset)).Sublist l.sites := by
  induction h with
  | cycle | limit => simp
  | last _ sound _ => simpa using sound.revisions
  | step _ sound _ _ ih => exact List.forall_mem_cons.mpr ⟨sound.revisions, ih⟩

/-- The revisions of all legs stand at sites, in the order of the walk. -/
theorem Course.offsets_sublist (h : Course options file visited offset left legs ending) :
    ((legs.flatMap (·.revisions)).map (·.offset)).Sublist (legs.flatMap Leg.sites) := by
  induction h with
  | cycle | limit => exact List.Sublist.refl _
  | last _ sound _ => simpa using sound.revisions
  | step _ sound _ _ ih =>
    rw [List.flatMap_cons, List.flatMap_cons, List.map_append]
    exact sound.revisions.append ih

/-- A walk that goes on at a section only comes to sections, also where it ends. -/
theorem Course.probe_sites (h : Course options file visited offset left legs ending)
    (section_ : ∃ kind, Section.probe options.toTolerance file offset = some kind) :
    (∀ site ∈ legs.flatMap Leg.sites,
      ∃ kind, Section.probe options.toTolerance file site = some kind) ∧
    ∀ site, ending.offset? = some site →
      ∃ kind, Section.probe options.toTolerance file site = some kind := by
  induction h with
  | cycle | limit =>
    refine ⟨by simp, fun site hsite => ?_⟩
    rwa [← Option.some.inj hsite]
  | last _ sound _ =>
    rw [List.flatMap_singleton]
    exact ⟨sound.probe_sites section_, nofun⟩
  | step _ sound link _ ih =>
    obtain ⟨hrest, hending⟩ := ih (LinkRole.probe_of_holds (sound.next _ link))
    refine ⟨fun site hsite => ?_, hending⟩
    rw [List.flatMap_cons] at hsite
    rcases List.mem_append.mp hsite with hsite | hsite
    · exact sound.probe_sites section_ site hsite
    · exact hrest site hsite

/-- The offsets that count as followed behind several legs. -/
def followAll (visited : List Nat) (legs : List Leg) : List Nat :=
  legs.foldl (fun visited l => follow (l.offset :: visited) l) visited

/-- A link that leads back ends the walk. -/
theorem Course.ends_at_cycle (h : Course options file visited offset left legs ending)
    {newer older : List Leg} {l : Leg} {next : Nat} (split : legs = newer ++ l :: older)
    (link : l.next = some next) (old : next ∈ followAll visited (newer ++ [l])) :
    older = [] ∧ ending = .cycle next := by
  induction h generalizing newer with
  | cycle | limit => simp at split
  | last _ _ hnone =>
    cases newer with
    | nil =>
      obtain ⟨rfl, _⟩ := List.cons.inj split
      rw [link] at hnone
      cases hnone
    | cons first newer => simp at split
  | step _ _ hnext rest ih =>
    cases newer with
    | nil =>
      obtain ⟨rfl, rfl⟩ := List.cons.inj split
      obtain rfl := Option.some.inj (hnext.symm.trans link)
      cases rest with
      | cycle => exact ⟨rfl, rfl⟩
      | limit new => exact absurd old new
      | last new => exact absurd old new
      | step new => exact absurd old new
    | cons first newer =>
      obtain ⟨rfl, hsplit⟩ := List.cons.inj split
      exact ih hsplit old

/-- A walk that ends for a link which leads back has followed where it leads. -/
theorem Course.mem_followAll (h : Course options file visited offset left legs ending) {site : Nat}
    (hcycle : ending = .cycle site) : site ∈ followAll visited legs := by
  induction h with
  | cycle old =>
    obtain rfl := Ending.cycle.inj hcycle
    exact old
  | limit | last => cases hcycle
  | step _ _ _ _ ih => exact ih hcycle

variable (options file) in
/-- The offsets that a walk takes up: those of its legs, and the one at which it ends without
    reading a section there. -/
def taken : List Nat :=
  (Route.legs options file).map (·.offset) ++ (Route.ending options file).offset?.toList

variable (options file) in
/-- The whole walk, if there is a section at which it can begin. -/
theorem course_legs :
    (Route.legs options file = [] ∧ Route.ending options file = .last) ∨
    ∃ offset, (∃ kind, Section.probe options.toTolerance file offset = some kind) ∧
      Course options file [] offset options.maxRevisions (Route.legs options file)
        (Route.ending options file) := by
  cases hstart : start? options file with
  | none =>
    unfold Route.legs Route.ending
    rw [hstart]
    exact Or.inl ⟨rfl, rfl⟩
  | some offset =>
    rw [legs_of_start hstart, ending_of_start hstart]
    refine Or.inr ⟨offset, ?_, course_legsFrom _ _ _⟩
    unfold start? at hstart
    obtain ⟨_, _, htarget⟩ := Option.bind_eq_some_iff.mp hstart
    exact LinkRole.probe_of_holds (LinkRole.holds_of_target? htarget)

end Route

/-! ## The whole walk -/

namespace Chain

/-- Whether all that a walk has gathered at one point is still there at another one. -/
structure Kept (ch later : Chain) : Prop where
  entries : ∀ k e, ch.table.get? k = some e → later.table.get? k = some e
  trailer : ∀ n value, ch.trailer.get? n = some value → later.trailer.get? n = some value
  revisions : ch.revisions <+: later.revisions

theorem kept_foldl_absorb (legs : List Leg) (ch : Chain) : Kept ch (legs.foldl absorb ch) where
  entries k e h := by rw [get?_foldl_absorb, h, Option.some_or]
  trailer n value h := by
    induction legs generalizing ch with
    | nil => exact h
    | cons l rest ih => exact ih (ch.absorb l) (Trailer.get?_foldl_merge h l.trailers)
  revisions := by
    rw [revisions_foldl_absorb]
    exact List.prefix_append _ _

theorem visited_foldl_absorb (legs : List Leg) (ch : Chain) :
    (legs.foldl absorb ch).visited = Route.followAll ch.visited legs := by
  induction legs generalizing ch with
  | nil => rfl
  | cons l rest ih => exact ih (ch.absorb l)

/-- What a walk has gathered when it has gone along the first part of its route, it keeps. -/
theorem kept_walk {options : Options} {file : Bytes} {newer older : List Leg}
    (hsplit : Route.legs options file = newer ++ older) :
    Kept (newer.foldl absorb (outset options file)) (walk options file) := by
  have h := kept_foldl_absorb older (newer.foldl absorb (outset options file))
  rw [← List.foldl_append, ← hsplit] at h
  rw [walk_eq]
  exact ⟨h.entries, h.trailer, h.revisions⟩

/-- The walk along the chain ends, however the links are tangled. It absorbs the legs of its route,
    no more of them than the options allow, and each of them reads a section and one companion at
    most. No section is read twice, and wherever the walk comes to, a section stands. It ends for a
    cycle only at an offset that was followed, and a link that leads back to such an offset does end
    it. What it has gathered at any point of its route is still there at its end. -/
theorem walk_bounded (options : Options) (file : Bytes) :
    walk options file = ((Route.legs options file).foldl absorb (outset options file)).finish
      options (Route.ending options file) ∧
    (Route.legs options file).length ≤ options.maxRevisions ∧
    (∀ l ∈ Route.legs options file, (l.revisions.map (·.offset)).Sublist l.sites) ∧
    ((Route.legs options file).flatMap Leg.sites).Nodup ∧
    ((walk options file).revisions.map (·.offset)).Nodup ∧
    (∀ r ∈ (walk options file).revisions, r.offset < file.length) ∧
    (∀ offset ∈ Route.taken options file,
      ∃ kind, Section.probe options.toTolerance file offset = some kind) ∧
    (∀ offset, Route.ending options file = .cycle offset →
      offset ∈ ((Route.legs options file).foldl absorb (outset options file)).visited) ∧
    ∀ newer older, Route.legs options file = newer ++ older →
      let ch := newer.foldl absorb (outset options file)
      Kept ch (walk options file) ∧
      ∀ l offset, newer.getLast? = some l → l.next = some offset → offset ∈ ch.visited →
        older = [] ∧ Route.ending options file = .cycle offset := by
  have hvisited : ∀ legs : List Leg, (legs.foldl absorb (outset options file)).visited =
      Route.followAll [] legs := fun legs => visited_foldl_absorb legs _
  rcases Route.course_legs options file with ⟨hlegs, hending⟩ | ⟨start, hstart, course⟩
  · -- without a section to begin at, nothing is read
    have hnone : (walk options file).revisions = [] := by rw [revisions_walk, hlegs]; rfl
    refine ⟨walk_eq options file, by simp [hlegs], by simp [hlegs], by simp [hlegs],
      by simp [hnone], by simp [hnone], by simp [Route.taken, Ending.offset?, hlegs, hending],
      by simp [hending], fun newer older hsplit => ⟨kept_walk hsplit, ?_⟩⟩
    rw [hlegs] at hsplit
    obtain ⟨rfl, rfl⟩ := List.append_eq_nil_iff.mp hsplit.symm
    exact nofun
  · obtain ⟨hsites, hends⟩ := course.probe_sites hstart
    have hnodup := course.nodup_sites.1
    have hsublist : ((walk options file).revisions.map (·.offset)).Sublist
        ((Route.legs options file).flatMap Leg.sites) := by
      rw [revisions_walk]
      exact course.offsets_sublist
    refine ⟨walk_eq options file, course.length_le, course.revisions_sublist, hnodup,
      hsublist.nodup hnodup, ?_, ?_, ?_, ?_⟩
    · intro r hr
      obtain ⟨kind, hkind⟩ := hsites r.offset (hsublist.subset (List.mem_map_of_mem hr))
      exact Section.lt_length_of_probe hkind
    · intro offset htaken
      rcases List.mem_append.mp htaken with hleg | hend
      · obtain ⟨l, hl, rfl⟩ := List.mem_map.mp hleg
        exact hsites l.offset (List.mem_flatMap.mpr ⟨l, hl, List.mem_cons_self⟩)
      · exact hends offset (Option.mem_toList.mp hend)
    · intro offset hcycle
      rw [hvisited]
      exact course.mem_followAll hcycle
    · intro newer older hsplit
      refine ⟨kept_walk hsplit, fun l offset hlast hnext hold => ?_⟩
      obtain ⟨newer, rfl⟩ := List.getLast?_eq_some_iff.mp hlast
      rw [hvisited] at hold
      refine course.ends_at_cycle ?_ hnext hold
      rw [hsplit, List.append_assoc]
      rfl

/-- A table whose trailer links back to it. -/
example : Route.ending .strict (ascii "\nxref\ntrailer<</Prev 1>>\nstartxref\n1") = .cycle 1 := by
  decide +kernel

end Chain

end CrossReference
