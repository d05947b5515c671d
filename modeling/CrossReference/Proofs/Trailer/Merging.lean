import CrossReference.Trailer

set_option autoImplicit false

/-! # Merged trailers

What merging does to the view of a trailer. A name keeps the value that it has, and a name without
one takes the value of the dictionary that is merged, unless the name describes a section. So the
first of several dictionaries with a name has the say, as the first section does for an entry. The
offsets of the trailers are kept in order, each of them once. -/

namespace CrossReference.Trailer

/-- What a list of entries in order adds for a name is the first of them that is for it. -/
theorem get?_foldl_offer (entries : List (Name × Object)) (t : Trailer) (n : Name) :
    (entries.foldl (fun t e => t.offer e.1 e.2) t).get? n =
      (t.get? n).or (if n ∈ sectionNames then none else Dict.lookup n entries) := by
  induction entries generalizing t with
  | nil => simp [Dict.lookup]
  | cons e rest ih =>
    rw [List.foldl_cons, ih, get?_offer, Option.or_assoc]
    congr 1
    by_cases hs : n ∈ sectionNames
    · simp [hs]
    · by_cases hn : n = e.1
      · subst hn
        simp [Dict.lookup, hs]
      · simp [Dict.lookup, hs, hn]

theorem get?_fillMissing (t : Trailer) (d : Dict Object) (n : Name) :
    (t.fillMissing d).get? n = (t.get? n).or (if n ∈ sectionNames then none else d.get? n) :=
  get?_foldl_offer d.entries t n

theorem get?_merge (t : Trailer) (d : Dict Object) (offset : Nat) (n : Name) :
    (t.merge d offset).get? n = (t.get? n).or (if n ∈ sectionNames then none else d.get? n) := by
  have hview : (t.merge d offset).get? n = (t.fillMissing d).get? n := by
    unfold merge
    dsimp only
    split <;> rfl
  rw [hview, get?_fillMissing]

/-- The value of a name behind several trailers: that from before, or else that of the first of them
    that has one. -/
theorem get?_mergeAll (ds : List (Dict Object × Nat)) (t : Trailer) (n : Name) :
    (ds.foldl (fun t d => t.merge d.1 d.2) t).get? n =
      (t.get? n).or (if n ∈ sectionNames then none else ds.findSome? (·.1.get? n)) := by
  induction ds generalizing t with
  | nil => simp
  | cons d rest ih =>
    rw [List.foldl_cons, ih, get?_merge, Option.or_assoc, List.findSome?_cons]
    congr 1
    by_cases hs : n ∈ sectionNames
    · simp [hs]
    · simp only [hs, if_false]
      cases d.1.get? n <;> rfl

/-- A value that a name has is not changed by trailers that are merged later. -/
theorem get?_foldl_merge {t : Trailer} {n : Name} {value : Object} (h : t.get? n = some value)
    (ds : List (Dict Object × Nat)) :
    (ds.foldl (fun t d => t.merge d.1 d.2) t).get? n = some value := by
  rw [get?_mergeAll, h, Option.some_or]

/-! ## Offsets -/

theorem offsets_fillMissing (t : Trailer) (d : Dict Object) :
    (t.fillMissing d).offsets = t.offsets := by
  unfold fillMissing
  induction d.entries generalizing t with
  | nil => rfl
  | cons e rest ih =>
    have hoffer : (t.offer e.1 e.2).offsets = t.offsets := by
      unfold offer
      split <;> rfl
    rw [List.foldl_cons, ih, hoffer]

theorem offsets_merge (t : Trailer) (d : Dict Object) (offset : Nat) :
    (t.merge d offset).offsets =
      if t.offsets.contains offset then t.offsets else t.offsets ++ [offset] := by
  unfold merge
  dsimp only
  split
  · exact offsets_fillMissing t d
  · rfl

/-- An offset that comes behind others adds to those that are there without repeats, if it is
    new. -/
theorem eraseDups_snoc (offsets : List Nat) (offset : Nat) :
    (offsets ++ [offset]).eraseDups =
      if offsets.eraseDups.contains offset then offsets.eraseDups
      else offsets.eraseDups ++ [offset] := by
  rw [List.eraseDups_append]
  by_cases h : offset ∈ offsets
  · simp [List.removeAll, h]
  · simp [List.removeAll, List.eraseDups_cons, h]

/-- Trailers leave their offsets behind in the order in which they are merged, each offset once. -/
theorem offsets_mergeAll (ds : List (Dict Object × Nat)) {t : Trailer} {before : List Nat}
    (h : t.offsets = before.eraseDups) :
    (ds.foldl (fun t d => t.merge d.1 d.2) t).offsets = (before ++ ds.map (·.2)).eraseDups := by
  induction ds generalizing t before with
  | nil => simpa using h
  | cons d rest ih =>
    have hstep : (t.merge d.1 d.2).offsets = (before ++ [d.2]).eraseDups := by
      rw [offsets_merge, h, eraseDups_snoc]
    rw [List.foldl_cons, ih hstep, List.append_assoc]
    rfl

end CrossReference.Trailer
