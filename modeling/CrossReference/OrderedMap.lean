set_option autoImplicit false

/-! # Ordered maps

A finite map, kept as the list of its entries in ascending order of keys. The order is part of the
type, so there is one list for each map: maps that agree on every key are equal, and going through a
map meets its keys in order. All changes are made by `alter`, and `get?_alter` says what it does. -/

namespace CrossReference

/-- A strict order in which any two different keys are comparable. -/
class OrderedKey (κ : Type) extends LT κ where
  irrefl : ∀ a : κ, ¬a < a
  trans : ∀ {a b c : κ}, a < b → b < c → a < c
  connected : ∀ {a b : κ}, ¬a < b → ¬b < a → a = b

instance : OrderedKey Nat where
  irrefl := Nat.lt_irrefl
  trans := Nat.lt_trans
  connected := by omega

/-- A finite map with its keys in ascending order. -/
structure OrderedMap (κ ν : Type) [OrderedKey κ] where
  entries : List (κ × ν) := []
  ascending : entries.Pairwise (fun a b => a.1 < b.1) := by simp

namespace OrderedMap

variable {κ ν : Type} [OrderedKey κ] [DecidableLT κ] [DecidableEq κ]

set_option linter.unusedSectionVars false

/-! ## Entries in order -/

/-- The value that a list of entries has for a key. -/
def lookup (k : κ) : List (κ × ν) → Option ν
  | [] => none
  | (k', v) :: rest => if k = k' then some v else lookup k rest

/-- An entry in front of others, if there is a value for it. -/
def consEntry (k : κ) (v : Option ν) (rest : List (κ × ν)) : List (κ × ν) :=
  match v with
  | none => rest
  | some v => (k, v) :: rest

/-- Replaces what a list of entries in order has for a key by a function of it. -/
def alterEntries (k : κ) (f : Option ν → Option ν) : List (κ × ν) → List (κ × ν)
  | [] => consEntry k (f none) []
  | (k', v) :: rest =>
    if k < k' then consEntry k (f none) ((k', v) :: rest)
    else if k = k' then consEntry k (f (some v)) rest
    else (k', v) :: alterEntries k f rest

theorem key_of_mem_consEntry {k : κ} {v : Option ν} {rest : List (κ × ν)} {e : κ × ν}
    (h : e ∈ consEntry k v rest) : e.1 = k ∨ e ∈ rest := by
  cases v with
  | none => exact Or.inr h
  | some v =>
    rcases List.mem_cons.1 h with rfl | h
    · exact Or.inl rfl
    · exact Or.inr h

theorem key_of_mem_alterEntries {k : κ} {f : Option ν → Option ν} {entries : List (κ × ν)}
    {e : κ × ν} (h : e ∈ alterEntries k f entries) : e.1 = k ∨ e ∈ entries := by
  induction entries with
  | nil => exact key_of_mem_consEntry h
  | cons d rest ih =>
    obtain ⟨k', v⟩ := d
    unfold alterEntries at h
    split at h
    · exact key_of_mem_consEntry h
    · split at h
      · exact (key_of_mem_consEntry h).imp_right (List.mem_cons_of_mem _)
      · rcases List.mem_cons.1 h with rfl | h
        · exact Or.inr List.mem_cons_self
        · exact (ih h).imp_right (List.mem_cons_of_mem _)

theorem pairwise_consEntry {k : κ} {v : Option ν} {rest : List (κ × ν)}
    (above : ∀ e ∈ rest, k < e.1) (h : rest.Pairwise (fun a b => a.1 < b.1)) :
    (consEntry k v rest).Pairwise (fun a b => a.1 < b.1) := by
  cases v with
  | none => exact h
  | some v => exact List.pairwise_cons.2 ⟨above, h⟩

theorem pairwise_alterEntries (k : κ) (f : Option ν → Option ν) {entries : List (κ × ν)}
    (h : entries.Pairwise (fun a b => a.1 < b.1)) :
    (alterEntries k f entries).Pairwise (fun a b => a.1 < b.1) := by
  induction entries with
  | nil => exact pairwise_consEntry (by simp) h
  | cons d rest ih =>
    obtain ⟨k', v⟩ := d
    have hrest := List.pairwise_cons.1 h
    unfold alterEntries
    split
    · rename_i hlt
      refine pairwise_consEntry (fun e he => ?_) h
      rcases List.mem_cons.1 he with rfl | he
      · exact hlt
      · exact OrderedKey.trans hlt (hrest.1 e he)
    · rename_i hnlt
      split
      · rename_i heq
        subst heq
        exact pairwise_consEntry hrest.1 hrest.2
      · rename_i hne
        refine List.pairwise_cons.2 ⟨fun e he => ?_, ih hrest.2⟩
        rcases key_of_mem_alterEntries he with hk | he
        · have : k' < k := Classical.byContradiction fun hn => hne (OrderedKey.connected hnlt hn)
          exact hk ▸ this
        · exact hrest.1 e he

/-! ## Maps -/

/-- The map without entries. -/
def empty : OrderedMap κ ν := {}

/-- The value of a key. -/
def get? (m : OrderedMap κ ν) (k : κ) : Option ν := lookup k m.entries

/-- Whether a key has a value. -/
def contains (m : OrderedMap κ ν) (k : κ) : Bool := (m.get? k).isSome

/-- Replaces what a map has for a key by a function of it. -/
def alter (m : OrderedMap κ ν) (k : κ) (f : Option ν → Option ν) : OrderedMap κ ν :=
  ⟨alterEntries k f m.entries, pairwise_alterEntries k f m.ascending⟩

/-- Gives a key a value, whether it had one before or not. -/
def insert (m : OrderedMap κ ν) (k : κ) (v : ν) : OrderedMap κ ν := m.alter k fun _ => some v

/-- Gives a key a value unless it has one. -/
def insertNew (m : OrderedMap κ ν) (k : κ) (v : ν) : OrderedMap κ ν :=
  m.alter k fun old => old.or (some v)

/-- Changes the value of a key, if it has one. -/
def adjust (m : OrderedMap κ ν) (k : κ) (f : ν → ν) : OrderedMap κ ν := m.alter k (Option.map f)

/-- Takes away the value of a key. -/
def erase (m : OrderedMap κ ν) (k : κ) : OrderedMap κ ν := m.alter k fun _ => none

/-- How many keys have values. -/
def size (m : OrderedMap κ ν) : Nat := m.entries.length

/-! ## What the operations do to the view -/

theorem lookup_eq_none_of_above {k : κ} {entries : List (κ × ν)} (h : ∀ e ∈ entries, k < e.1) :
    lookup k entries = none := by
  induction entries with
  | nil => rfl
  | cons d rest ih =>
    have hd := h d List.mem_cons_self
    have hne : k ≠ d.1 := fun he => OrderedKey.irrefl k (he ▸ hd)
    simp [lookup, hne, ih fun e he => h e (List.mem_cons_of_mem _ he)]

theorem lookup_consEntry (k k' : κ) (v : Option ν) {rest : List (κ × ν)}
    (h : lookup k rest = none) :
    lookup k' (consEntry k v rest) = if k' = k then v else lookup k' rest := by
  cases v <;> by_cases hk : k' = k <;> simp_all [consEntry, lookup]

theorem lookup_alterEntries (k k' : κ) (f : Option ν → Option ν) {entries : List (κ × ν)}
    (h : entries.Pairwise (fun a b => a.1 < b.1)) :
    lookup k' (alterEntries k f entries) =
      if k' = k then f (lookup k entries) else lookup k' entries := by
  induction entries with
  | nil => exact lookup_consEntry k k' (f none) rfl
  | cons d rest ih =>
    obtain ⟨j, v⟩ := d
    have hrest := List.pairwise_cons.1 h
    unfold alterEntries
    split
    · rename_i hlt
      have hnone : lookup k ((j, v) :: rest) = none := by
        refine lookup_eq_none_of_above fun e he => ?_
        rcases List.mem_cons.1 he with rfl | he
        · exact hlt
        · exact OrderedKey.trans hlt (hrest.1 e he)
      rw [lookup_consEntry k k' (f none) hnone, hnone]
    · split
      · rename_i heq
        subst heq
        rw [lookup_consEntry k k' _ (lookup_eq_none_of_above hrest.1)]
        by_cases hk : k' = k <;> simp [lookup, hk]
      · rename_i hne
        by_cases hj : k' = j
        · have hk : k' ≠ k := fun he => hne (he ▸ hj)
          have hjk : j ≠ k := fun he => hne he.symm
          simp [lookup, hj, hjk]
        · simp [lookup, hj, hne, ih hrest.2]

@[simp] theorem get?_empty (k : κ) : (empty : OrderedMap κ ν).get? k = none := rfl

@[simp] theorem get?_alter (m : OrderedMap κ ν) (k k' : κ) (f : Option ν → Option ν) :
    (m.alter k f).get? k' = if k' = k then f (m.get? k) else m.get? k' :=
  lookup_alterEntries k k' f m.ascending

@[simp] theorem get?_insert (m : OrderedMap κ ν) (k k' : κ) (v : ν) :
    (m.insert k v).get? k' = if k' = k then some v else m.get? k' :=
  get?_alter m k k' _

@[simp] theorem get?_erase (m : OrderedMap κ ν) (k k' : κ) :
    (m.erase k).get? k' = if k' = k then none else m.get? k' :=
  get?_alter m k k' _

theorem get?_insertNew (m : OrderedMap κ ν) (k k' : κ) (v : ν) :
    (m.insertNew k v).get? k' = (m.get? k').or (if k' = k then some v else none) := by
  unfold insertNew
  rw [get?_alter]
  split <;> simp_all

theorem get?_adjust (m : OrderedMap κ ν) (k k' : κ) (f : ν → ν) :
    (m.adjust k f).get? k' = if k' = k then (m.get? k).map f else m.get? k' :=
  get?_alter m k k' _

theorem lookup_ext {xs ys : List (κ × ν)} (hx : xs.Pairwise (fun a b => a.1 < b.1))
    (hy : ys.Pairwise (fun a b => a.1 < b.1)) (h : ∀ k, lookup k xs = lookup k ys) : xs = ys := by
  induction xs generalizing ys with
  | nil =>
    cases ys with
    | nil => rfl
    | cons e rest => simpa [lookup] using h e.1
  | cons d xs ih =>
    have hxs := List.pairwise_cons.1 hx
    cases ys with
    | nil => simpa [lookup] using h d.1
    | cons e ys =>
      have hys := List.pairwise_cons.1 hy
      -- were the first keys different, the lesser one would be missing on the other side
      have hkey : d.1 = e.1 := by
        refine OrderedKey.connected (fun hlt => ?_) (fun hlt => ?_)
        · have hnone : lookup d.1 (e :: ys) = none := by
            refine lookup_eq_none_of_above fun c hc => ?_
            rcases List.mem_cons.1 hc with rfl | hc
            · exact hlt
            · exact OrderedKey.trans hlt (hys.1 c hc)
          have := h d.1
          rw [hnone] at this
          simp [lookup] at this
        · have hnone : lookup e.1 (d :: xs) = none := by
            refine lookup_eq_none_of_above fun c hc => ?_
            rcases List.mem_cons.1 hc with rfl | hc
            · exact hlt
            · exact OrderedKey.trans hlt (hxs.1 c hc)
          have := h e.1
          rw [hnone] at this
          simp [lookup] at this
      have hvalue : d.2 = e.2 := by simpa [lookup, hkey] using h d.1
      have htail : xs = ys := by
        refine ih hxs.2 hys.2 fun k => ?_
        by_cases hk : k = d.1
        · rw [hk, lookup_eq_none_of_above hxs.1, hkey, lookup_eq_none_of_above hys.1]
        · have hk' : k ≠ e.1 := hkey ▸ hk
          simpa [lookup, hk, hk'] using h k
      rw [htail, Prod.ext hkey hvalue]

/-- Maps that agree on every key are equal. -/
theorem ext_get? {m n : OrderedMap κ ν} (h : ∀ k, m.get? k = n.get? k) : m = n := by
  obtain ⟨xs, hx⟩ := m
  obtain ⟨ys, hy⟩ := n
  congr
  exact lookup_ext hx hy h

instance [DecidableEq ν] : DecidableEq (OrderedMap κ ν) := fun m n =>
  if h : m.entries = n.entries then
    .isTrue (by cases m; cases n; congr)
  else .isFalse fun he => h (congrArg entries he)

end OrderedMap

end CrossReference
