import CrossReference.Proofs.Table.Union

set_option autoImplicit false

/-! # The entries of a table

A table shows its entries in two ways, by look-up and as a list in the order of their keys. They
agree: `mem_toList`, `mem_directOffsets` and `latest?_eq_some`. So the list is known up to its order
where the view is known: `perm_add` and `perm_ofList`. -/

namespace CrossReference

namespace OrderedMap

variable {κ ν : Type} [OrderedKey κ] [DecidableLT κ] [DecidableEq κ] {entries : List (κ × ν)}
  {k : κ} {v : ν}

set_option linter.unusedSectionVars false

theorem mem_of_lookup (h : lookup k entries = some v) : (k, v) ∈ entries := by
  induction entries with
  | nil => cases h
  | cons first rest ih =>
    unfold lookup at h
    split at h
    · rename_i hk
      rw [hk, ← Option.some.inj h]
      exact List.mem_cons_self
    · exact List.mem_cons_of_mem first (ih h)

/-- Of entries with different keys, each one is found. -/
theorem lookup_eq_some_iff_of_distinct (h : entries.Pairwise (fun a b => a.1 ≠ b.1)) :
    lookup k entries = some v ↔ (k, v) ∈ entries := by
  refine ⟨mem_of_lookup, fun hmem => ?_⟩
  induction entries with
  | nil => cases hmem
  | cons first rest ih =>
    obtain ⟨hother, hrest⟩ := List.pairwise_cons.mp h
    unfold lookup
    rcases List.mem_cons.mp hmem with rfl | hmem
    · exact if_pos rfl
    · rw [if_neg (hother _ hmem).symm]
      exact ih hrest hmem

theorem distinct_of_ascending (h : entries.Pairwise (fun a b => a.1 < b.1)) :
    entries.Pairwise (fun a b => a.1 ≠ b.1) := by
  refine h.imp fun {a b} hlt heq => ?_
  rw [heq] at hlt
  exact OrderedKey.irrefl _ hlt

theorem nodup_of_distinct (h : entries.Pairwise (fun a b => a.1 ≠ b.1)) : entries.Nodup :=
  h.imp fun hne heq => hne (congrArg Prod.fst heq)

theorem lookup_eq_some_iff (h : entries.Pairwise (fun a b => a.1 < b.1)) :
    lookup k entries = some v ↔ (k, v) ∈ entries :=
  lookup_eq_some_iff_of_distinct (distinct_of_ascending h)

/-- A key for which there are entries has one of them. -/
theorem exists_lookup (h : (k, v) ∈ entries) : ∃ v', lookup k entries = some v' := by
  induction entries with
  | nil => cases h
  | cons first rest ih =>
    unfold lookup
    split
    · exact ⟨_, rfl⟩
    · rename_i hk
      rcases List.mem_cons.mp h with rfl | h
      · exact absurd rfl hk
      · exact ih h

/-- The entry that is found comes before every other one for its key. -/
theorem rel_of_lookup {before : κ × ν → κ × ν → Prop} (h : entries.Pairwise before)
    (hfound : lookup k entries = some v) {v' : ν} (hmem : (k, v') ∈ entries) :
    v' = v ∨ before (k, v) (k, v') := by
  induction entries with
  | nil => cases hmem
  | cons first rest ih =>
    obtain ⟨hfirst, hrest⟩ := List.pairwise_cons.mp h
    unfold lookup at hfound
    split at hfound
    · rename_i hk
      have heq : first = (k, v) := Prod.ext hk.symm (Option.some.inj hfound)
      rcases List.mem_cons.mp hmem with hhere | hmem
      · rw [heq] at hhere
        exact Or.inl (Prod.mk.inj hhere).2
      · exact Or.inr (heq ▸ hfirst _ hmem)
    · rename_i hk
      rcases List.mem_cons.mp hmem with rfl | hmem
      · exact absurd rfl hk
      · exact ih hrest hfound hmem

theorem lookup_append (xs ys : List (κ × ν)) :
    lookup k (xs ++ ys) = (lookup k xs).or (lookup k ys) := by
  induction xs with
  | nil => rw [List.nil_append, lookup, Option.none_or]
  | cons first rest ih =>
    rw [List.cons_append]
    by_cases hk : k = first.1 <;> simp [lookup, hk, ← ih]

/-- Of several lists of entries, the first one counts in which a key is found. -/
theorem lookup_flatMap {α : Type} (f : α → List (κ × ν)) (as : List α) :
    lookup k (as.flatMap f) = as.findSome? fun a => lookup k (f a) := by
  induction as with
  | nil => rfl
  | cons a as ih =>
    rw [List.flatMap_cons, lookup_append, ih, List.findSome?_cons]
    cases lookup k (f a) <;> rfl

/-- The last one of entries in order is the one with the greatest key. -/
theorem getLast?_eq_some_iff (h : entries.Pairwise (fun a b => a.1 < b.1)) {e : κ × ν} :
    entries.getLast? = some e ↔ e ∈ entries ∧ ∀ e' ∈ entries, e' = e ∨ e'.1 < e.1 := by
  have hlast : ∀ last, entries.getLast? = some last →
      last ∈ entries ∧ ∀ e' ∈ entries, e' = last ∨ e'.1 < last.1 := by
    intro last hlast
    refine ⟨List.mem_of_getLast? hlast, fun e' he' => ?_⟩
    obtain ⟨front, rfl⟩ := List.getLast?_eq_some_iff.mp hlast
    rcases List.mem_append.mp he' with hfront | hend
    · exact Or.inr ((List.pairwise_append.mp h).2.2 e' hfront last List.mem_cons_self)
    · exact Or.inl (List.mem_singleton.mp hend)
  refine ⟨hlast e, fun ⟨hmem, hgreatest⟩ => ?_⟩
  obtain ⟨last, hsome⟩ : ∃ last, entries.getLast? = some last :=
    ⟨_, List.getLast?_eq_some_getLast (List.ne_nil_of_mem hmem)⟩
  obtain ⟨hmem', hgreatest'⟩ := hlast last hsome
  rcases hgreatest last hmem' with rfl | hlt
  · exact hsome
  · rcases hgreatest' e hmem with rfl | hlt'
    · exact hsome
    · exact absurd (OrderedKey.trans hlt hlt') (OrderedKey.irrefl _)

end OrderedMap

namespace Table

theorem mem_toList {t : Table} {k : Key} {e : Entry} :
    (k, e) ∈ t.toList ↔ t.get? k = some e :=
  (OrderedMap.lookup_eq_some_iff t.entries.ascending).symm

theorem nodup_toList (t : Table) : t.toList.Nodup :=
  OrderedMap.nodup_of_distinct (OrderedMap.distinct_of_ascending t.entries.ascending)

/-- The list of entries with one more key has one more entry. -/
theorem perm_add {t : Table} {k : Key} (fresh : t.get? k = none) (e : Entry) :
    (t.add k e).toList.Perm ((k, e) :: t.toList) := by
  have hnew : (k, e) ∉ t.toList := by
    rw [mem_toList, fresh]
    exact nofun
  refine (List.perm_ext_iff_of_nodup (nodup_toList _)
    (List.nodup_cons.mpr ⟨hnew, nodup_toList t⟩)).mpr fun ⟨j, e'⟩ => ?_
  rw [mem_toList, get?_add, List.mem_cons, mem_toList]
  by_cases hj : j = k
  · simp [hj, fresh, eq_comm]
  · simp [hj]

/-- The table of entries with different keys has them all. -/
theorem perm_ofList {entries : List (Key × Entry)}
    (distinct : entries.Pairwise fun a b => a.1 ≠ b.1) :
    (ofList entries).toList.Perm entries := by
  refine (List.perm_ext_iff_of_nodup (nodup_toList _)
    (OrderedMap.nodup_of_distinct distinct)).mpr fun ⟨k, e⟩ => ?_
  rw [mem_toList, get?_ofList, OrderedMap.lookup_eq_some_iff_of_distinct distinct]

theorem mem_directOffsets {t : Table} {k : Key} {offset : Nat} :
    (k, offset) ∈ t.directOffsets ↔ t.get? k = some (.direct offset) := by
  unfold directOffsets
  rw [List.mem_filterMap]
  constructor
  · rintro ⟨⟨k', e⟩, hmem, hoffset⟩
    obtain ⟨offset', he, hpair⟩ := Option.map_eq_some_iff.mp hoffset
    obtain ⟨rfl, rfl⟩ := Prod.mk.inj hpair
    have hdirect : e = .direct offset' := by
      cases e with
      | direct _ => rw [Option.some.inj he]
      | _ => cases he
    rw [← hdirect]
    exact mem_toList.mp hmem
  · intro h
    exact ⟨(k, .direct offset), mem_toList.mpr h, rfl⟩

/-- The latest entry for an object number is the one whose generation no other one exceeds. -/
theorem latest?_eq_some {t : Table} {number : Nat} {k : Key} {e : Entry} :
    t.latest? number = some (k, e) ↔
      k.number = number ∧ t.get? k = some e ∧
        ∀ j, j.number = number → (t.get? j).isSome → j.generation ≤ k.generation := by
  unfold latest?
  have hascending : (t.toList.filter (·.1.number = number)).Pairwise (fun a b => a.1 < b.1) :=
    t.entries.ascending.sublist List.filter_sublist
  rw [OrderedMap.getLast?_eq_some_iff hascending]
  simp only [List.mem_filter, decide_eq_true_eq, and_imp]
  constructor
  · rintro ⟨⟨hmem, hnumber⟩, hgreatest⟩
    refine ⟨hnumber, mem_toList.mp hmem, fun j hj hsome => ?_⟩
    obtain ⟨e', hget⟩ := Option.isSome_iff_exists.mp hsome
    rcases hgreatest (j, e') (mem_toList.mpr hget) hj with heq | hlt
    · exact Nat.le_of_eq (congrArg Key.generation (Prod.mk.inj heq).1)
    · rw [Key.lt_def] at hlt
      dsimp only at hlt
      omega
  · rintro ⟨hnumber, hget, hgreatest⟩
    refine ⟨⟨mem_toList.mpr hget, hnumber⟩, fun ⟨j, e'⟩ hmem hj => ?_⟩
    have hget' := mem_toList.mp hmem
    have hle := hgreatest j hj (by rw [hget']; rfl)
    rcases Nat.lt_or_eq_of_le hle with hlt | heq
    · exact Or.inr (Key.lt_def.mpr (Or.inr ⟨hj.trans hnumber.symm, hlt⟩))
    · obtain rfl : j = k := by
        cases j
        cases k
        simp_all
      rw [hget] at hget'
      rw [Option.some.inj hget']
      exact Or.inl rfl

theorem isEmpty_iff {t : Table} : t.isEmpty = true ↔ ∀ k, t.get? k = none := by
  unfold isEmpty
  rw [List.isEmpty_iff]
  constructor
  · intro h k
    change OrderedMap.lookup k t.entries.entries = none
    rw [h]
    rfl
  · intro h
    rw [List.eq_nil_iff_forall_not_mem]
    rintro ⟨k, e⟩ hmem
    have hget := mem_toList.mp hmem
    rw [h k] at hget
    cases hget

theorem get?_relocate (t : Table) (k j : Key) (offset : Nat) :
    (t.relocate k offset).get? j =
      if j = k then
        (t.get? k).map fun
          | .direct _ => .direct offset
          | other => other
      else t.get? j :=
  OrderedMap.get?_adjust t.entries k j _

end Table

end CrossReference
