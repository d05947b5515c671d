import CrossReference.Proofs.Trailer.Merging

set_option autoImplicit false

/-! # Changes to a trailer

However a trailer is put together, a dictionary that was merged into it has nothing more to give.
The trailer then has a value for each of its names that describe the document, be it the value of
this dictionary or another one, and no change takes a value or an offset away (`Holds.run`). So it
can be merged again at any later time, and nothing changes (`merge_again`). As long as no value is
set by hand, the value of a name is that of the first dictionary with that name (`get?_run`). -/

namespace CrossReference

theorem Dict.isSome_lookup_of_mem {α : Type} {entries : List (Name × α)} {e : Name × α}
    (h : e ∈ entries) : (lookup e.1 entries).isSome := by
  induction entries with
  | nil => simp at h
  | cons first rest ih =>
    by_cases hname : e.1 = first.1
    · simp [lookup, hname]
    · have hrest : e ∈ rest := by
        rcases List.mem_cons.mp h with rfl | hrest
        · exact absurd rfl hname
        · exact hrest
      simp [lookup, hname, ih hrest]

namespace Trailer

/-! ## Changes -/

/-- A change to a trailer. -/
inductive Change where
  | merge (d : Dict Object) (offset : Nat)
  | fillMissing (d : Dict Object)
  | set (n : Name) (value : Object)

/-- The trailer behind a change. -/
def apply (t : Trailer) : Change → Trailer
  | .merge d offset => t.merge d offset
  | .fillMissing d => t.fillMissing d
  | .set n value => t.set n value

/-- The trailer behind several changes. -/
def run (t : Trailer) (changes : List Change) : Trailer := changes.foldl apply t

/-! ## Dictionaries without anything new -/

/-- A name that describes a section, or has a value, is not given one. -/
theorem offer_eq_self {t : Trailer} {n : Name} (h : n ∉ sectionNames → (t.get? n).isSome)
    (value : Object) : t.offer n value = t := by
  unfold offer
  by_cases hn : n ∈ sectionNames
  · simp [hn]
  · have hvalue : t.entries.contains n = true := h hn
    simp [hn, Dict.insertNew, hvalue]

theorem foldl_offer_eq_self {t : Trailer} {entries : List (Name × Object)}
    (h : ∀ e ∈ entries, e.1 ∉ sectionNames → (t.get? e.1).isSome) :
    entries.foldl (fun t e => t.offer e.1 e.2) t = t := by
  induction entries with
  | nil => rfl
  | cons e rest ih =>
    rw [List.foldl_cons, offer_eq_self (h e List.mem_cons_self)]
    exact ih fun e' he' => h e' (List.mem_cons_of_mem _ he')

theorem fillMissing_eq_self {t : Trailer} {d : Dict Object}
    (h : ∀ n, n ∉ sectionNames → (d.get? n).isSome → (t.get? n).isSome) : t.fillMissing d = t :=
  foldl_offer_eq_self fun e he hn => h e.1 hn (Dict.isSome_lookup_of_mem he)

/-- Whether a trailer has what a dictionary at an offset can give: values for all of its names that
    describe the document, and the offset. -/
structure Holds (t : Trailer) (d : Dict Object) (offset : Nat) : Prop where
  value : ∀ n, n ∉ sectionNames → (d.get? n).isSome → (t.get? n).isSome
  offset : offset ∈ t.offsets

namespace Holds

variable {t : Trailer} {d : Dict Object} {offset : Nat}

theorem merge_eq_self (h : t.Holds d offset) : t.merge d offset = t := by
  have hoffset := h.offset
  simp [Trailer.merge, fillMissing_eq_self h.value, hoffset]

/-! ## What was merged stays -/

theorem merge (t : Trailer) (d : Dict Object) (offset : Nat) :
    (t.merge d offset).Holds d offset where
  value n hn hvalue := by
    rw [get?_merge, Option.isSome_or, if_neg hn, hvalue, Bool.or_true]
  offset := by
    rw [offsets_merge]
    split
    · rename_i hold
      simpa using hold
    · simp

/-- A change keeps the offsets of a trailer, and a value for each name that has one. -/
theorem apply (h : t.Holds d offset) (c : Change) : (t.apply c).Holds d offset := by
  refine ⟨fun n hn hvalue => ?_, ?_⟩
  · have hvalue := h.value n hn hvalue
    cases c with
    | merge d' offset' =>
      show ((t.merge d' offset').get? n).isSome
      simp [get?_merge, hvalue]
    | fillMissing d' =>
      show ((t.fillMissing d').get? n).isSome
      simp [get?_fillMissing, hvalue]
    | set m value =>
      show ((t.set m value).get? n).isSome
      rw [get?_set]
      split
      · rfl
      · exact hvalue
  · have hoffset := h.offset
    cases c with
    | merge d' offset' =>
      show offset ∈ (t.merge d' offset').offsets
      rw [offsets_merge]
      split
      · exact hoffset
      · exact List.mem_append_left _ hoffset
    | fillMissing d' =>
      show offset ∈ (t.fillMissing d').offsets
      rwa [offsets_fillMissing]
    | set m value => exact hoffset

theorem run (h : t.Holds d offset) (changes : List Change) : (t.run changes).Holds d offset := by
  induction changes generalizing t with
  | nil => exact h
  | cons c rest ih => exact ih (h.apply c)

/-- A trailer holds all that was merged into it with any of several changes. -/
theorem run_of_mem {changes : List Change} (h : .merge d offset ∈ changes) (t : Trailer) :
    (t.run changes).Holds d offset := by
  induction changes generalizing t with
  | nil => simp at h
  | cons c rest ih =>
    rcases List.mem_cons.mp h with rfl | hrest
    · exact (Holds.merge t d offset).run rest
    · exact ih hrest (t.apply c)

end Holds

/-! ## The first dictionary with a name -/

/-- The dictionary that a change takes values from. -/
def Change.source? : Change → Option (Dict Object)
  | .merge d _ => some d
  | .fillMissing d => some d
  | .set _ _ => none

/-- The dictionaries that changes take values from, in order. -/
def sources (changes : List Change) : List (Dict Object) := changes.filterMap Change.source?

theorem get?_apply_of_source {c : Change} {d : Dict Object} (h : c.source? = some d) (t : Trailer)
    (n : Name) :
    (t.apply c).get? n = (t.get? n).or (if n ∈ sectionNames then none else d.get? n) := by
  cases c with
  | merge d' offset =>
    obtain rfl : d' = d := Option.some.inj h
    exact get?_merge t d' offset n
  | fillMissing d' =>
    obtain rfl : d' = d := Option.some.inj h
    exact get?_fillMissing t d' n
  | set m value => cases h

/-- Without values that are set, a name keeps the value from before, or else it has that of the
    first dictionary with the name. -/
theorem get?_run {changes : List Change} (unset : ∀ n value, .set n value ∉ changes) (t : Trailer)
    (n : Name) :
    (t.run changes).get? n =
      (t.get? n).or
        (if n ∈ sectionNames then none else (sources changes).findSome? (·.get? n)) := by
  induction changes generalizing t with
  | nil =>
    show t.get? n = _
    simp [sources]
  | cons c rest ih =>
    have hrest : ∀ n value, .set n value ∉ rest :=
      fun n value hmem => unset n value (List.mem_cons_of_mem c hmem)
    obtain ⟨d, hd⟩ : ∃ d, c.source? = some d := by
      cases c with
      | merge d offset => exact ⟨d, rfl⟩
      | fillMissing d => exact ⟨d, rfl⟩
      | set m value => exact absurd List.mem_cons_self (unset m value)
    have hsources : sources (c :: rest) = d :: sources rest := List.filterMap_cons_some hd
    show ((t.apply c).run rest).get? n = _
    rw [ih hrest, get?_apply_of_source hd, hsources, Option.or_assoc, List.findSome?_cons]
    by_cases hn : n ∈ sectionNames
    · simp [hn]
    · simp only [hn, if_false]
      cases d.get? n <;> rfl

/-! ## Merging again -/

/-- A dictionary that was merged at an offset with any of several changes can be merged there again
    behind all of them, and the trailer stays what it is, its entries and its offsets. If no value
    is set among the changes, then a name that describes the document has the value of the first
    dictionary that has one for it, and none if there is no such dictionary. -/
theorem merge_again (t : Trailer) (changes : List Change) :
    (∀ d offset, .merge d offset ∈ changes →
      (t.run changes).merge d offset = t.run changes) ∧
    ((∀ n value, .set n value ∉ changes) → ∀ n, n ∉ sectionNames →
      (empty.run changes).get? n = (sources changes).findSome? (·.get? n)) := by
  constructor
  · intro d offset hmem
    exact (Holds.run_of_mem hmem t).merge_eq_self
  · intro unset n hn
    have hempty : empty.get? n = none := rfl
    rw [get?_run unset, hempty, Option.none_or, if_neg hn]

/-- The trailer of the newest of two sections. -/
def newestTrailer : Dict Object := ⟨[("Prev", .integer 50), ("Root", .reference ⟨1, 0⟩)]⟩

/-- The trailer of the section before it. -/
def earlierTrailer : Dict Object := ⟨[("Root", .reference ⟨7, 0⟩), ("Info", .reference ⟨2, 0⟩)]⟩

/-- Both of them in order, and the newest one again, also with another value for one of its
    names. -/
theorem newestTrailer_again :
    ((empty.run [.merge newestTrailer 100, .set "Root" .null, .merge earlierTrailer 50]).merge
        newestTrailer 100 =
      empty.run [.merge newestTrailer 100, .set "Root" .null, .merge earlierTrailer 50]) ∧
    (empty.run [.merge newestTrailer 100, .fillMissing earlierTrailer]).get? "Root" =
      some (.reference ⟨1, 0⟩) ∧
    (empty.run [.merge newestTrailer 100, .fillMissing earlierTrailer]).get? "Info" =
      some (.reference ⟨2, 0⟩) := by
  have unset : ∀ n value,
      Change.set n value ∉ [Change.merge newestTrailer 100, .fillMissing earlierTrailer] := by simp
  refine ⟨(merge_again empty _).1 newestTrailer 100 List.mem_cons_self, ?_, ?_⟩
  · exact (merge_again empty _).2 unset "Root" (by decide)
  · exact (merge_again empty _).2 unset "Info" (by decide)

end Trailer

end CrossReference
