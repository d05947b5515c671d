import CrossReference.Proofs.Table.Entries
import Mathlib.Order.Bounds.Basic

set_option autoImplicit false

/-! # Tables in use

A table that is only added to, and merged with others of its kind, is a union in which the left side
wins. Its highest number is that of an entry, so the laws of the union are equalities of tables,
that number included.

Once entries are moved or taken away the highest number need not be that of an entry. What it is is
told by what has come in: a number comes in with a change if a key with this number has an entry
behind the change and had none before (`incoming`), whatever the change is. A change takes the
highest number to the greatest of itself and of what comes in (`isGreatest_apply`), and so does a
run of changes, by induction (`isGreatest_run`). -/

namespace CrossReference.Table

/-! ## Tables that only grow -/

/-- Tables that are made from the empty one by adding entries and by merging. -/
inductive Grown : Table → Prop
  | empty : Grown .empty
  | add {t : Table} (h : Grown t) (k : Key) (e : Entry) : Grown (t.add k e)
  | merge {t other : Table} (h : Grown t) (hother : Grown other) : Grown (t.merge other)

theorem Grown.tight {t : Table} (h : Grown t) : t.Tight := by
  induction h with
  | empty => exact tight_empty
  | add _ k e ih => exact ih.add k e
  | merge _ _ ih _ => exact ih.merge _

theorem merge_self {t : Table} (ht : t.Tight) : t.merge t = t := by
  refine ext_of_tight (ht.merge t) ht fun k => ?_
  rw [get?_merge, Option.or_self]

/-! ## Numbers that come in -/

/-- The object numbers of the keys that have an entry in the second of two tables and none in the
    first. -/
def incoming (t t' : Table) : Set Nat :=
  {n | ∃ k, t.get? k = none ∧ (t'.get? k).isSome ∧ k.number = n}

/-- Nothing comes in where the keys of a table are keys from before. -/
theorem incoming_eq_empty {t t' : Table} (h : ∀ k, (t'.get? k).isSome → (t.get? k).isSome) :
    incoming t t' = ∅ := by
  refine Set.eq_empty_iff_forall_notMem.mpr ?_
  rintro n ⟨k, hnone, hsome, -⟩
  have hbefore := h k hsome
  rw [hnone] at hbefore
  cases hbefore

/-- Where no entry goes away, what comes in in two steps is what comes in at once. -/
theorem incoming_trans {t t' t'' : Table} (h : ∀ k, (t.get? k).isSome → (t'.get? k).isSome)
    (h' : ∀ k, (t'.get? k).isSome → (t''.get? k).isSome) :
    incoming t t'' = incoming t t' ∪ incoming t' t'' := by
  ext n
  constructor
  · rintro ⟨k, hnone, hsome, rfl⟩
    cases hbetween : t'.get? k with
    | none => exact Or.inr ⟨k, hbetween, hsome, rfl⟩
    | some e => exact Or.inl ⟨k, hnone, Option.isSome_of_eq_some hbetween, rfl⟩
  · rintro (⟨k, hnone, hsome, rfl⟩ | ⟨k, hnone, hsome, rfl⟩)
    · exact ⟨k, hnone, h' k hsome, rfl⟩
    · refine ⟨k, ?_, hsome, rfl⟩
      rw [← Option.not_isSome_iff_eq_none] at hnone ⊢
      exact mt (h k) hnone

/-- The greatest number in two steps. -/
theorem isGreatest_insert_union {S T : Set Nat} {a b c : Nat} (hb : IsGreatest (insert a S) b)
    (hc : IsGreatest (insert b T) c) : IsGreatest (insert a (S ∪ T)) c := by
  rw [← Set.insert_union]
  constructor
  · rcases hc.1 with rfl | hmem
    · exact Or.inl hb.1
    · exact Or.inr hmem
  · rintro n (hn | hn)
    · exact (hb.2 hn).trans (hc.2 (Set.mem_insert b T))
    · exact hc.2 (Set.mem_insert_of_mem b hn)

/-! ## Adding entries -/

theorem highestNumber_add {t : Table} {k : Key} (h : t.get? k = none) (e : Entry) :
    (t.add k e).highestNumber = max t.highestNumber k.number := by
  unfold highestNumber
  rw [highest_add h]
  rfl

theorem incoming_add {t : Table} {k : Key} (h : t.get? k = none) (e : Entry) :
    incoming t (t.add k e) = {k.number} := by
  ext n
  constructor
  · rintro ⟨j, hnone, hsome, rfl⟩
    rw [isSome_get?_add, hnone, Option.isSome_none, Bool.false_or, decide_eq_true_eq] at hsome
    rw [hsome]
    rfl
  · rintro rfl
    exact ⟨k, h, by rw [isSome_get?_add, decide_eq_true rfl, Bool.or_true], rfl⟩

/-- A table in which nothing but the place of entries has changed. -/
theorem isGreatest_of_highest {t t' : Table} (hhighest : t'.highest = t.highest)
    (h : ∀ k, (t'.get? k).isSome → (t.get? k).isSome) :
    IsGreatest (insert t.highestNumber (incoming t t')) t'.highestNumber := by
  have hsame : t'.highestNumber = t.highestNumber := congrArg (Option.getD · 0) hhighest
  rw [incoming_eq_empty h, hsame, insert_empty_eq]
  exact isGreatest_singleton

theorem isGreatest_add (t : Table) (k : Key) (e : Entry) :
    IsGreatest (insert t.highestNumber (incoming t (t.add k e))) (t.add k e).highestNumber := by
  cases hk : t.get? k with
  | some old =>
    rw [add_of_get? hk]
    exact isGreatest_of_highest rfl fun _ hj => hj
  | none =>
    rw [incoming_add hk, highestNumber_add hk]
    exact isGreatest_pair

theorem isGreatest_addAll (t : Table) (entries : List (Key × Entry)) :
    IsGreatest (insert t.highestNumber (incoming t (t.addAll entries)))
      (t.addAll entries).highestNumber := by
  induction entries generalizing t with
  | nil => exact isGreatest_of_highest rfl fun _ hj => hj
  | cons first rest ih =>
    have hfirst : ∀ k, (t.get? k).isSome → ((t.add first.1 first.2).get? k).isSome := fun k hk => by
      rw [isSome_get?_add, hk, Bool.true_or]
    have hrest : ∀ k, ((t.add first.1 first.2).get? k).isSome →
        (((t.add first.1 first.2).addAll rest).get? k).isSome := fun k hk => by
      rw [get?_addAll, Option.isSome_or, hk, Bool.true_or]
    show IsGreatest (insert _ (incoming t ((t.add first.1 first.2).addAll rest))) _
    rw [incoming_trans hfirst hrest]
    exact isGreatest_insert_union (isGreatest_add t first.1 first.2) (ih _)

/-! ## Changes -/

/-- A change to a table. -/
inductive Change where
  | add (k : Key) (e : Entry)
  | merge (other : Table)
  | relocate (k : Key) (offset : Nat)
  | remove (k : Key)

/-- The table behind a change. -/
def apply (t : Table) : Change → Table
  | .add k e => t.add k e
  | .merge other => t.merge other
  | .relocate k offset => t.relocate k offset
  | .remove k => t.remove k

/-- A change takes the highest number to the greatest of itself and of the numbers that come in. -/
theorem isGreatest_apply (t : Table) (c : Change) :
    IsGreatest (insert t.highestNumber (incoming t (t.apply c))) (t.apply c).highestNumber := by
  cases c with
  | add k e => exact isGreatest_add t k e
  | merge other => exact isGreatest_addAll t other.toList
  | relocate k offset =>
    refine isGreatest_of_highest rfl fun j hj => ?_
    change ((t.relocate k offset).get? j).isSome at hj
    rw [get?_relocate] at hj
    split at hj
    · rename_i hkey
      rw [Option.isSome_map] at hj
      rwa [hkey]
    · exact hj
  | remove k =>
    refine isGreatest_of_highest rfl fun j hj => ?_
    change ((t.remove k).get? j).isSome at hj
    rw [get?_remove] at hj
    split at hj
    · cases hj
    · exact hj

/-! ## Runs of changes -/

/-- The table behind several changes. -/
def run (t : Table) (changes : List Change) : Table := changes.foldl apply t

/-- The numbers that come in with any of several changes. -/
def arrivals (t : Table) : List Change → Set Nat
  | [] => ∅
  | c :: rest => incoming t (t.apply c) ∪ arrivals (t.apply c) rest

/-- The highest number behind several changes is the greatest of the one before and of all numbers
    that came in, whether their keys have entries still or not. -/
theorem isGreatest_run (t : Table) (changes : List Change) :
    IsGreatest (insert t.highestNumber (arrivals t changes)) (t.run changes).highestNumber := by
  induction changes generalizing t with
  | nil =>
    rw [arrivals, insert_empty_eq]
    exact isGreatest_singleton
  | cons c rest ih => exact isGreatest_insert_union (isGreatest_apply t c) (ih (t.apply c))

/-- A key that has an entry had one before, or its number came in. -/
theorem mem_arrivals_of_get? (t : Table) (changes : List Change) {k : Key}
    (h : ((t.run changes).get? k).isSome) : (t.get? k).isSome ∨ k.number ∈ arrivals t changes := by
  induction changes generalizing t with
  | nil => exact Or.inl h
  | cons c rest ih =>
    rcases ih (t.apply c) h with hbehind | hlater
    · cases hbefore : t.get? k with
      | some e => exact Or.inl rfl
      | none => exact Or.inr (Or.inl ⟨k, hbefore, hbehind, rfl⟩)
    · exact Or.inr (Or.inr hlater)

/-! ## The laws -/

/-- The numbers of a table that only grew are those of its entries. -/
theorem Tight.isGreatest {t : Table} (ht : t.Tight) :
    IsGreatest (insert 0 (incoming empty t)) t.highestNumber := by
  have hmerge := isGreatest_addAll empty t.toList
  change IsGreatest (insert 0 (incoming empty (empty.merge t)))
    (empty.merge t).highestNumber at hmerge
  rwa [empty_merge ht] at hmerge

theorem highestNumber_merge {s t : Table} (hs : s.Tight) (ht : t.Tight) :
    (s.merge t).highestNumber = max s.highestNumber t.highestNumber := by
  have hincoming : incoming empty (s.merge t) = incoming empty s ∪ incoming empty t := by
    ext n
    simp only [incoming, get?_empty, get?_merge, Option.isSome_or, Bool.or_eq_true, true_and,
      Set.mem_union, Set.mem_ofPred_eq, or_and_right, exists_or]
  have hgreatest := (hs.merge t).isGreatest
  rw [hincoming, Set.insert_union_distrib] at hgreatest
  exact hgreatest.unique (hs.isGreatest.union ht.isGreatest)

/-- Merging tables that only grew is a union in which the left side wins: it keeps every entry that
    is there and adds those for the keys that are missing, it is associative and idempotent, and the
    empty table is neutral; all of this holds of the highest number too. However a table was
    changed, its highest number is the greatest that has come in since it was empty, and zero if
    none has. So no key of the table exceeds it, and it never decreases. -/
theorem left_biased_union {s t : Table} (hs : s.Grown) (ht : t.Grown) (u : Table)
    (changes more : List Change) :
    ((∀ k, (s.merge t).get? k = (s.get? k).or (t.get? k)) ∧
      (s.merge t).highestNumber = max s.highestNumber t.highestNumber ∧
      (s.merge t).merge u = s.merge (t.merge u) ∧
      s.merge s = s ∧ s.merge empty = s ∧ empty.merge s = s) ∧
    (IsGreatest (insert 0 (arrivals empty changes)) (empty.run changes).highestNumber ∧
      (∀ k, ((empty.run changes).get? k).isSome → k.number ≤ (empty.run changes).highestNumber) ∧
      (empty.run changes).highestNumber ≤ (empty.run (changes ++ more)).highestNumber) := by
  have hgreatest : IsGreatest (insert 0 (arrivals empty changes))
      (empty.run changes).highestNumber := isGreatest_run empty changes
  refine ⟨⟨get?_merge s t, highestNumber_merge hs.tight ht.tight, merge_assoc hs.tight t u,
    merge_self hs.tight, merge_empty s, empty_merge hs.tight⟩, hgreatest, fun k hk => ?_, ?_⟩
  · rcases mem_arrivals_of_get? empty changes hk with hempty | hcame
    · cases hempty
    · exact hgreatest.2 (Set.mem_insert_of_mem 0 hcame)
  · have hmore := isGreatest_run (empty.run changes) more
    have happend : empty.run (changes ++ more) = (empty.run changes).run more := List.foldl_append
    rw [happend]
    exact hmore.2 (Set.mem_insert _ _)

/-- A table of one entry. -/
def newerTable : Table := empty.add ⟨1, 0⟩ (.direct 500)

/-- A table with another entry for the same key, and one for a greater number. -/
def olderTable : Table := (empty.add ⟨1, 0⟩ (.direct 100)).add ⟨7, 0⟩ (.direct 200)

/-- The newer entry wins, and the highest number stays when its entry is taken away again. -/
theorem newerTable_merged :
    newerTable.Grown ∧ olderTable.Grown ∧
    (newerTable.merge olderTable).get? ⟨1, 0⟩ = some (.direct 500) ∧
    (newerTable.merge olderTable).highestNumber = 7 ∧
    (empty.run [.merge olderTable, .remove ⟨7, 0⟩]).get? ⟨7, 0⟩ = none ∧
    IsGreatest (insert 0 (arrivals empty [.merge olderTable, .remove ⟨7, 0⟩])) 7 := by
  have hnewer : newerTable.Grown := .add .empty _ _
  have holder : olderTable.Grown := .add (.add .empty _ _) _ _
  obtain ⟨⟨hview, hmax, -⟩, hgreatest, -⟩ :=
    left_biased_union hnewer holder empty [.merge olderTable, .remove ⟨7, 0⟩] []
  have hown : newerTable.get? ⟨1, 0⟩ = some (.direct 500) := by decide
  refine ⟨hnewer, holder, ?_, ?_, by decide, hgreatest⟩
  · rw [hview, hown]
    rfl
  · rw [hmax]
    rfl

end CrossReference.Table
