import CrossReference.Table

set_option autoImplicit false

/-! # Tables as unions

A table is known by its view `get?` and its highest object number. For a table from which nothing
was ever taken, the view determines that number (`Tight`), so two such tables with one view are
equal. Merging is then a union in which the left side wins: it is associative, and the empty table
is neutral on both sides. -/

namespace CrossReference

namespace Table

/-! ## The highest number -/

/-- The highest object number of a table is that of one of its keys, and no key exceeds it. -/
structure Tight (t : Table) : Prop where
  bound : ∀ k, (t.get? k).isSome → ∃ n, t.highest = some n ∧ k.number ≤ n
  attained : ∀ n, t.highest = some n → ∃ k, (t.get? k).isSome ∧ k.number = n

theorem tight_empty : Tight empty where
  bound k h := by simp at h
  attained n h := by simp [empty] at h

theorem isSome_get?_add (t : Table) (k j : Key) (e : Entry) :
    ((t.add k e).get? j).isSome = ((t.get? j).isSome || decide (j = k)) := by
  rw [get?_add]
  cases t.get? j <;> by_cases h : j = k <;> simp [h]

/-- What an entry does to the highest number of a table that has no entry for its key. -/
theorem highest_add {t : Table} {k : Key} (h : t.get? k = none) (e : Entry) :
    (t.add k e).highest = some (max (t.highest.getD 0) k.number) := by
  have hk : t.contains k = false := by
    change (t.get? k).isSome = false
    simp [h]
  unfold add
  rw [if_neg (by simp [hk])]
  cases t.highest <;> simp

theorem add_of_get? {t : Table} {k : Key} {old : Entry} (h : t.get? k = some old) (e : Entry) :
    t.add k e = t := by
  have hk : t.contains k = true := by
    change (t.get? k).isSome = true
    simp [h]
  unfold add
  rw [if_pos hk]

theorem Tight.add {t : Table} (ht : t.Tight) (k : Key) (e : Entry) : (t.add k e).Tight := by
  cases hk : t.get? k with
  | some old => rw [add_of_get? hk]; exact ht
  | none =>
    constructor
    · intro j hj
      rw [highest_add hk]
      refine ⟨_, rfl, ?_⟩
      rw [isSome_get?_add, Bool.or_eq_true, decide_eq_true_eq] at hj
      rcases hj with hj | rfl
      · obtain ⟨n, hn, hle⟩ := ht.bound j hj
        rw [hn, Option.getD_some]
        omega
      · omega
    · intro n hn
      rw [highest_add hk, Option.some.injEq] at hn
      by_cases hle : t.highest.getD 0 ≤ k.number
      · exact ⟨k, by simp [isSome_get?_add], by omega⟩
      · -- the number that stays the highest is not the one of an empty table
        obtain ⟨m, hm⟩ : ∃ m, t.highest = some m := by
          cases hh : t.highest with
          | none => simp [hh] at hle
          | some m => exact ⟨m, rfl⟩
        obtain ⟨j, hj, hjm⟩ := ht.attained m hm
        refine ⟨j, by simp [isSome_get?_add, hj], ?_⟩
        rw [hm, Option.getD_some] at hn hle
        omega

theorem Tight.addAll {t : Table} (ht : t.Tight) (entries : List (Key × Entry)) :
    (t.addAll entries).Tight := by
  induction entries generalizing t with
  | nil => exact ht
  | cons e rest ih => exact ih (ht.add e.1 e.2)

theorem Tight.merge {t : Table} (ht : t.Tight) (other : Table) : (t.merge other).Tight :=
  ht.addAll other.toList

theorem tight_ofList (entries : List (Key × Entry)) : (ofList entries).Tight :=
  tight_empty.addAll entries

/-! ## Equality -/

theorem highest_le_of_get? {s t : Table} (hs : s.Tight) (ht : t.Tight)
    (h : ∀ k, s.get? k = t.get? k) {n : Nat} (hn : s.highest = some n) :
    ∃ m, t.highest = some m ∧ n ≤ m := by
  obtain ⟨k, hk, rfl⟩ := hs.attained n hn
  exact ht.bound k (by rw [← h k]; exact hk)

/-- Tables from which nothing was taken are equal if they have the same entries. -/
theorem ext_of_tight {s t : Table} (hs : s.Tight) (ht : t.Tight)
    (h : ∀ k, s.get? k = t.get? k) : s = t := by
  have hentries : s.entries = t.entries := OrderedMap.ext_get? h
  have hhighest : s.highest = t.highest := by
    cases hn : s.highest with
    | none =>
      cases hm : t.highest with
      | none => rfl
      | some m =>
        obtain ⟨n, hn', _⟩ := highest_le_of_get? ht hs (fun k => (h k).symm) hm
        rw [hn] at hn'
        cases hn'
    | some n =>
      obtain ⟨m, hm, hle⟩ := highest_le_of_get? hs ht h hn
      obtain ⟨n', hn', hle'⟩ := highest_le_of_get? ht hs (fun k => (h k).symm) hm
      rw [hn, Option.some.injEq] at hn'
      rw [hm, Option.some.injEq]
      omega
  cases s
  cases t
  rw [mk.injEq]
  exact ⟨hentries, hhighest⟩

/-! ## Laws of the union -/

theorem get?_ofList (entries : List (Key × Entry)) (k : Key) :
    (ofList entries).get? k = OrderedMap.lookup k entries := by
  rw [ofList, get?_addAll, get?_empty, Option.none_or]

@[simp] theorem ofList_nil : ofList [] = empty := rfl

@[simp] theorem merge_empty (t : Table) : t.merge empty = t := rfl

theorem empty_merge {t : Table} (ht : t.Tight) : empty.merge t = t := by
  refine ext_of_tight (tight_empty.merge t) ht fun k => ?_
  rw [get?_merge, get?_empty, Option.none_or]

theorem merge_assoc {s : Table} (hs : s.Tight) (t u : Table) :
    (s.merge t).merge u = s.merge (t.merge u) := by
  refine ext_of_tight ((hs.merge t).merge u) (hs.merge _) fun k => ?_
  simp only [get?_merge, Option.or_assoc]

end Table

end CrossReference
