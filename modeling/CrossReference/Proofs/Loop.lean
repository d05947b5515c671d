set_option autoImplicit false

/-! # Loops in rounds

A loop with a bound on its rounds may end before it gets there. `Loop.starts` lists the states in
which its rounds start, so the length of that list is how many of them there are, whether the last
one is completed or not. If every completed round takes something of a supply, then there are at
most as many rounds as the supply has, and one (`length_starts_le`); the bound plays no part. So a
loop that has no bound ends in as many rounds too (`exists_endsIn`). -/

namespace CrossReference

/-- How a round of a loop ends: it is completed and leaves a state for the next round, or the loop
    is over and this is its answer. -/
inductive Outcome (σ α : Type) where
  | again (s : σ)
  | ended (a : α)

namespace Loop

variable {σ α : Type} (round : σ → Outcome σ α) (answer : σ → α)

/-- A loop of at most so many rounds. When all of them are completed, the last state has the
    answer. -/
def run : (rounds : Nat) → σ → α
  | 0, s => answer s
  | rounds + 1, s =>
    match round s with
    | .again s' => run rounds s'
    | .ended a => a

/-- The states in which the rounds of such a loop start. -/
def starts : (rounds : Nat) → σ → List σ
  | 0, _ => []
  | rounds + 1, s =>
    match round s with
    | .again s' => s :: starts rounds s'
    | .ended _ => [s]

/-- Whether each round that is completed takes something of a supply. -/
def Consumes (supply : σ → Nat) : Prop := ∀ s s', round s = .again s' → supply s' < supply s

variable {round answer}

theorem length_starts_le_rounds (rounds : Nat) (s : σ) :
    (starts round rounds s).length ≤ rounds := by
  induction rounds generalizing s with
  | zero => exact Nat.le_refl 0
  | succ rounds ih =>
    unfold starts
    cases round s with
    | again s' => exact Nat.succ_le_succ (ih s')
    | ended a => exact Nat.succ_le_succ (Nat.zero_le rounds)

/-- No more rounds start than the supply has, and one. -/
theorem length_starts_le {supply : σ → Nat} (h : Consumes round supply) (rounds : Nat) (s : σ) :
    (starts round rounds s).length ≤ supply s + 1 := by
  induction rounds generalizing s with
  | zero => exact Nat.zero_le _
  | succ rounds ih =>
    unfold starts
    cases hround : round s with
    | again s' =>
      have hlater := ih s'
      have htaken := h s s' hround
      simp only [List.length_cons]
      omega
    | ended a => exact Nat.succ_le_succ (Nat.zero_le _)

/-- A loop without a bound ends in the round with this number, and this is its answer. -/
inductive EndsIn (round : σ → Outcome σ α) : (rounds : Nat) → σ → α → Prop
  | last {s : σ} {a : α} (ended : round s = .ended a) : EndsIn round 1 s a
  | later {rounds : Nat} {s s' : σ} {a : α} (again : round s = .again s')
      (ends : EndsIn round rounds s' a) : EndsIn round (rounds + 1) s a

/-- A loop whose rounds take something of a supply ends, at the latest in the round behind the one
    that takes the last of it. -/
theorem exists_endsIn {supply : σ → Nat} (h : Consumes round supply) (s : σ) :
    ∃ rounds ≤ supply s + 1, ∃ a, EndsIn round rounds s a := by
  generalize hleft : supply s = left
  induction left using Nat.strongRecOn generalizing s with
  | ind left ih =>
    cases hround : round s with
    | again s' =>
      have htaken : supply s' < left := hleft ▸ h s s' hround
      obtain ⟨rounds, hrounds, a, hends⟩ := ih (supply s') htaken s' rfl
      exact ⟨rounds + 1, by omega, a, .later hround hends⟩
    | ended a => exact ⟨1, by omega, a, .last hround⟩

/-- What every completed round keeps, and what then holds of an answer, holds of the answer of the
    loop. -/
theorem run_induct {P : σ → Prop} {Q : α → Prop} (hagain : ∀ s s', P s → round s = .again s' → P s')
    (hended : ∀ s a, P s → round s = .ended a → Q a) (hanswer : ∀ s, P s → Q (answer s))
    (rounds : Nat) {s : σ} (hs : P s) : Q (run round answer rounds s) := by
  induction rounds generalizing s with
  | zero => exact hanswer s hs
  | succ rounds ih =>
    unfold run
    cases hround : round s with
    | again s' => exact ih (hagain s s' hs hround)
    | ended a => exact hended s a hs hround

end Loop

end CrossReference
