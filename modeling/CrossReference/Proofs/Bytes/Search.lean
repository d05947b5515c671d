import CrossReference.Bytes.Search

set_option autoImplicit false

/-! # Finding occurrences

The search for the first occurrence finds one if there is any, and it finds the first one, also if
the text is searched in pieces. The search for the last one goes through the whole text and keeps
the place that it found last; what it found in a part is forgotten when the pattern occurs behind
that part, so it finds the last one (`last?_eq_some`). An occurrence is the last one as soon as the
first byte of the pattern does not come up again. -/

namespace CrossReference.Bytes

variable {p : UInt8} {pattern text : Bytes} {i n : Nat}

/-! ## The first occurrence -/

theorem isSome_firstFrom (hne : pattern ≠ []) (i : Nat) (text : Bytes) :
    (firstFrom pattern i text).isSome = true ↔ pattern <:+: text := by
  induction text generalizing i with
  | nil => simp [firstFrom, hne]
  | cons b rest ih =>
    rw [firstFrom, List.infix_cons_iff, ← ih (i + 1), ← List.isPrefixOf_iff_prefix]
    split
    · rename_i hhere
      simp [hhere]
    · rename_i hhere
      simp [hhere]

/-- A pattern is found exactly if it occurs. -/
theorem isSome_first? (hne : pattern ≠ []) (text : Bytes) :
    (first? pattern text).isSome = true ↔ pattern <:+: text := by
  unfold first?
  rw [if_neg (by simpa using hne)]
  exact isSome_firstFrom hne 0 text

/-- A pattern stands at an index of a text, and at no index before it. -/
def FirstAt (pattern text : Bytes) (i : Nat) : Prop :=
  pattern <+: text.drop i ∧ ∀ j < i, ¬pattern <+: text.drop j

theorem firstFrom_eq_some (hne : pattern ≠ []) {k : Nat} :
    firstFrom pattern k text = some n ↔ ∃ i, n = k + i ∧ FirstAt pattern text i := by
  induction text generalizing k with
  | nil => simp [firstFrom, FirstAt, hne]
  | cons b rest ih =>
    by_cases hhere : pattern <+: b :: rest
    · rw [firstFrom, if_pos (List.isPrefixOf_iff_prefix.mpr hhere)]
      constructor
      · intro h
        cases h
        exact ⟨0, rfl, hhere, fun _ hj => absurd hj (Nat.not_lt_zero _)⟩
      · rintro ⟨i, rfl, _, hbefore⟩
        cases i with
        | zero => rfl
        | succ i => exact absurd hhere (hbefore 0 (Nat.succ_pos i))
    · rw [firstFrom, if_neg (mt List.isPrefixOf_iff_prefix.mp hhere), ih]
      constructor
      · rintro ⟨i, rfl, hi, hbefore⟩
        refine ⟨i + 1, by omega, hi, fun j hj => ?_⟩
        cases j with
        | zero => exact hhere
        | succ j => exact hbefore j (Nat.lt_of_succ_lt_succ hj)
      · rintro ⟨i, rfl, hi, hbefore⟩
        cases i with
        | zero => exact absurd hi hhere
        | succ i =>
          exact ⟨i, by omega, hi, fun j hj => hbefore (j + 1) (Nat.succ_lt_succ hj)⟩

/-- The search for the first occurrence finds the first occurrence. -/
theorem first?_eq_some (hne : pattern ≠ []) :
    first? pattern text = some i ↔ FirstAt pattern text i := by
  unfold first?
  rw [if_neg (by simpa using hne), firstFrom_eq_some hne]
  simp

theorem first?_eq_none (hne : pattern ≠ []) :
    first? pattern text = none ↔ ∀ i, ¬pattern <+: text.drop i := by
  rw [← Option.not_isSome_iff_eq_none, isSome_first? hne, ← not_exists, not_congr]
  constructor
  · rintro ⟨front, behind, rfl⟩
    exact ⟨front.length, by simp⟩
  · rintro ⟨i, hi⟩
    exact hi.isInfix.trans (List.drop_suffix i text).isInfix

/-- An occurrence in the front part of a text is one in the text that ends inside the part. -/
theorem prefix_drop_take (hne : pattern ≠ []) :
    pattern <+: (text.take n).drop i ↔ pattern <+: text.drop i ∧ i + pattern.length ≤ n := by
  have hpos : 0 < pattern.length := List.length_pos_iff.mpr hne
  have hend : pattern.length ≤ n - i ↔ i + pattern.length ≤ n := by omega
  rw [List.drop_take, List.prefix_take_iff, hend]

/-- What is first in the front part of a text is first in the text. -/
theorem FirstAt.of_take (hne : pattern ≠ []) (h : FirstAt pattern (text.take n) i) :
    FirstAt pattern text i := by
  obtain ⟨hi, hbefore⟩ := h
  obtain ⟨hi, hend⟩ := (prefix_drop_take hne).mp hi
  exact ⟨hi, fun j hj hother => hbefore j hj ((prefix_drop_take hne).mpr ⟨hother, by omega⟩)⟩

/-- What is first in a text is first in a front part that it lies in. -/
theorem FirstAt.take (hne : pattern ≠ []) (h : FirstAt pattern text i)
    (hend : i + pattern.length ≤ n) : FirstAt pattern (text.take n) i :=
  ⟨(prefix_drop_take hne).mpr ⟨h.1, hend⟩, fun j hj hother =>
    h.2 j hj ((prefix_drop_take hne).mp hother).1⟩

/-- A front part in which no occurrence begins can be left out of the search. -/
theorem first?_drop (hne : pattern ≠ []) (hnone : ∀ j < n, ¬pattern <+: text.drop j) :
    first? pattern text = (first? pattern (text.drop n)).map (n + ·) := by
  refine Option.ext fun i => ?_
  rw [Option.map_eq_some_iff, first?_eq_some hne]
  simp only [first?_eq_some hne, FirstAt, List.drop_drop]
  constructor
  · rintro ⟨hi, hbefore⟩
    have hle : n ≤ i := Nat.le_of_not_lt fun hlt => hnone i hlt hi
    refine ⟨i - n, ⟨?_, fun j hj => hbefore (n + j) (by omega)⟩, by omega⟩
    rwa [Nat.add_sub_cancel' hle]
  · rintro ⟨i, ⟨hi, hbefore⟩, rfl⟩
    refine ⟨hi, fun j hj => ?_⟩
    by_cases hlt : j < n
    · exact hnone j hlt
    · have hother := hbefore (j - n) (by omega)
      rwa [Nat.add_sub_cancel' (Nat.le_of_not_lt hlt)] at hother

/-- A pattern does not reach over a text behind which it cannot go on. -/
theorem prefix_of_prefix_append {run xs ys : Bytes} (hy : ∀ b ∈ ys.head?, b ∉ run)
    (h : run <+: xs ++ ys) : run <+: xs := by
  obtain ⟨more, hmore⟩ := h
  rcases List.append_eq_append_iff.mp hmore with ⟨a, rfl, _⟩ | ⟨a, hrun, hrest⟩
  · exact List.prefix_append _ _
  · cases a with
    | nil => simp [hrun]
    | cons b a =>
      refine absurd ?_ (hy b (by rw [hrest]; rfl))
      rw [hrun]
      exact List.mem_append_right xs List.mem_cons_self

/-- A pattern is first behind a text that does not hold it, if a byte that is not in the pattern
    separates the two. -/
theorem firstAt_append {front : Bytes} {separator : UInt8} (hseparator : separator ∉ pattern)
    (hfront : ¬pattern <:+: front) (rest : Bytes) :
    FirstAt pattern (front ++ separator :: (pattern ++ rest)) (front.length + 1) := by
  constructor
  · rw [List.append_cons, List.drop_left' (by simp)]
    exact List.prefix_append _ _
  · intro j hj hoccurs
    rw [List.drop_append_of_le_length (Nat.le_of_lt_succ hj)] at hoccurs
    have hinside : pattern <+: front.drop j := by
      refine prefix_of_prefix_append (fun b hb => ?_) hoccurs
      obtain rfl : separator = b := Option.some.inj hb
      exact hseparator
    exact hfront (hinside.isInfix.trans (List.drop_suffix j front).isInfix)

/-! ## Piece by piece -/

/-- The search in pieces finds what a search at once finds. -/
theorem firstInPieces_eq (hne : pattern ≠ []) (offset : Nat) (span : Bytes) :
    firstInPieces pattern offset span = (first? pattern span).map (offset + ·) := by
  fun_induction firstInPieces pattern offset span with
  | case1 offset span i hfound =>
    have hfirst := ((first?_eq_some hne).mp hfound).of_take hne
    rw [(first?_eq_some hne).mpr hfirst]
    rfl
  | case2 offset span hnone _ ih =>
    -- the piece reaches over by the length of the pattern, so nothing begins in front of the next
    have hfront : ∀ j < stride, ¬pattern <+: span.drop j := fun j hj hoccurs =>
      (first?_eq_none hne).mp hnone j ((prefix_drop_take hne).mpr ⟨hoccurs, by omega⟩)
    rw [ih, first?_drop hne hfront, Option.map_map]
    congr 1
    funext i
    exact Nat.add_assoc offset stride i
  | case3 offset span hnone hlast =>
    rw [List.take_of_length_le (Nat.le_of_not_lt hlast)] at hnone
    rw [hnone]
    rfl

/-! ## The last occurrence -/

/-- A pattern stands at an index of a text, and at no index behind it. -/
def LastAt (pattern text : Bytes) (i : Nat) : Prop :=
  pattern <+: text.drop i ∧ ∀ j, i < j → ¬pattern <+: text.drop j

theorem LastAt.unique {j : Nat} (h : LastAt pattern text i) (h' : LastAt pattern text j) : i = j :=
  Nat.le_antisymm (Nat.le_of_not_lt fun hlt => h'.2 i hlt h.1)
    (Nat.le_of_not_lt fun hlt => h.2 j hlt h'.1)

/-- What is last in the rear part of a text is last in the text. -/
theorem lastAt_drop : LastAt pattern (text.drop n) i ↔ LastAt pattern text (n + i) := by
  unfold LastAt
  simp only [List.drop_drop]
  refine and_congr_right fun _ => ⟨fun h j hj => ?_, fun h j hj => h (n + j) (by omega)⟩
  have hother := h (j - n) (by omega)
  rwa [Nat.add_sub_cancel' (by omega)] at hother

theorem lastFrom_eq_some (hne : pattern ≠ []) {before : Option Nat} {k : Nat} :
    lastFrom pattern before k text = some n ↔
      (∃ i, n = k + i ∧ LastAt pattern text i) ∨
        ((∀ i, ¬pattern <+: text.drop i) ∧ before = some n) := by
  induction text generalizing before k with
  | nil => simp [lastFrom, LastAt, hne]
  | cons b rest ih =>
    have hbehind : (∃ i, n = k + 1 + i ∧ LastAt pattern rest i) ↔
        ∃ i, n = k + (i + 1) ∧ LastAt pattern (b :: rest) (i + 1) := by
      refine exists_congr fun i => and_congr (by omega) ?_
      rw [Nat.add_comm i, ← lastAt_drop]
      rfl
    rw [lastFrom, ih, hbehind]
    by_cases hhere : pattern <+: b :: rest
    · rw [if_pos (List.isPrefixOf_iff_prefix.mpr hhere)]
      constructor
      · rintro (⟨i, hn, hlast⟩ | ⟨hnone, hn⟩)
        · exact Or.inl ⟨i + 1, hn, hlast⟩
        · refine Or.inl ⟨0, (Option.some.inj hn).symm, hhere, fun j hj => ?_⟩
          obtain ⟨j, rfl⟩ := Nat.exists_eq_add_one_of_ne_zero (Nat.ne_of_gt hj)
          exact hnone j
      · rintro (⟨i, hn, hlast⟩ | ⟨hnone, -⟩)
        · cases i with
          | zero => exact Or.inr ⟨fun i => hlast.2 (i + 1) (Nat.succ_pos i), congrArg some hn.symm⟩
          | succ i => exact Or.inl ⟨i, hn, hlast⟩
        · exact absurd hhere (hnone 0)
    · rw [if_neg (mt List.isPrefixOf_iff_prefix.mp hhere)]
      constructor
      · rintro (⟨i, hn, hlast⟩ | ⟨hnone, hn⟩)
        · exact Or.inl ⟨i + 1, hn, hlast⟩
        · refine Or.inr ⟨fun i => ?_, hn⟩
          cases i with
          | zero => exact hhere
          | succ i => exact hnone i
      · rintro (⟨i, hn, hlast⟩ | ⟨hnone, hn⟩)
        · cases i with
          | zero => exact absurd hlast.1 hhere
          | succ i => exact Or.inl ⟨i, hn, hlast⟩
        · exact Or.inr ⟨fun i => hnone (i + 1), hn⟩

/-- The search for the last occurrence finds the last occurrence. -/
theorem last?_eq_some (hne : pattern ≠ []) :
    last? pattern text = some i ↔ LastAt pattern text i := by
  unfold last?
  rw [if_neg (by simpa using hne), lastFrom_eq_some hne]
  simp

theorem lastFrom_eq_none (hne : pattern ≠ []) {before : Option Nat} {k : Nat} :
    lastFrom pattern before k text = none ↔
      before = none ∧ ∀ i, ¬pattern <+: text.drop i := by
  induction text generalizing before k with
  | nil => simp [lastFrom, hne]
  | cons b rest ih =>
    rw [lastFrom, ih]
    by_cases hhere : pattern <+: b :: rest
    · rw [if_pos (List.isPrefixOf_iff_prefix.mpr hhere)]
      exact ⟨fun h => absurd h.1 (Option.some_ne_none k), fun h => absurd hhere (h.2 0)⟩
    · rw [if_neg (mt List.isPrefixOf_iff_prefix.mp hhere)]
      refine and_congr_right fun _ => ⟨fun h i => ?_, fun h i => h (i + 1)⟩
      cases i with
      | zero => exact hhere
      | succ i => exact h i

theorem last?_eq_none (hne : pattern ≠ []) :
    last? pattern text = none ↔ ∀ i, ¬pattern <+: text.drop i := by
  unfold last?
  rw [if_neg (by simpa using hne), lastFrom_eq_none hne]
  exact and_iff_right rfl

/-- The last occurrence of a pattern whose first byte does not occur again. -/
theorem last?_append {behind : Bytes} (h : p ∉ pattern ++ behind) (front : Bytes) :
    last? (p :: pattern) (front ++ (p :: pattern ++ behind)) = some front.length := by
  refine (last?_eq_some (List.cons_ne_nil p pattern)).mpr ⟨?_, fun j hj hoccurs => ?_⟩
  · rw [List.drop_left]
    exact List.prefix_append (p :: pattern) behind
  · obtain ⟨k, rfl⟩ := Nat.exists_eq_add_of_lt hj
    rw [Nat.add_assoc, List.drop_length_add_append, List.cons_append,
      List.drop_succ_cons] at hoccurs
    exact h (List.mem_of_mem_drop (hoccurs.subset List.mem_cons_self))

end CrossReference.Bytes
