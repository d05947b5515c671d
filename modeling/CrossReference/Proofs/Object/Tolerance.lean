import CrossReference.Object.Reader
import CrossReference.Proofs.Token.Words

set_option autoImplicit false

/-! # Objects and tolerance

A reader that insists on less reads whatever a stricter reader reads, and in the same way
(`refines_ofToken`). The stricter one must not search for the ends of streams: what it takes for
stream data has the declared length, and there the other one looks first too. -/

namespace CrossReference

/-- What one reader accepts the other accepts too, since it insists on no more. -/
structure Tolerance.Within (tolerance tolerance' : Tolerance) : Prop where
  streams : tolerance.lenientStreams = false
  pedantic : tolerance'.pedantic = true → tolerance.pedantic = true
  nesting : tolerance.maxNesting ≤ tolerance'.maxNesting

namespace Reader

/-- Whether all that a reader reads another one reads in the same way. -/
def Refines {α : Type} (r r' : Reader α) : Prop := ∀ c a c', r c = .ok a c' → r' c = .ok a c'

theorem refines_refl {α : Type} (r : Reader α) : Refines r r := fun _ _ _ h => h

theorem Refines.bind {α β : Type} {r r' : Reader α} {f f' : α → Reader β} (hr : Refines r r')
    (hf : ∀ a, Refines (f a) (f' a)) : Refines (r >>= f) (r' >>= f') := by
  intro c b c' h
  obtain ⟨a, c₁, hra, hfa⟩ := bind_eq_ok.mp h
  exact bind_eq_ok.mpr ⟨a, c₁, hr c a c₁ hra, hf a c₁ b c' hfa⟩

theorem Refines.rounds {α : Type} {loop loop' : Nat → Reader α}
    (h : ∀ n, Refines (loop n) (loop' n)) : Refines (rounds loop) (rounds loop') :=
  fun c a c' hread => h _ c a c' hread

variable {tolerance tolerance' : Tolerance}

theorem refines_streamData (within : tolerance.Within tolerance') (entries : Dict Object) :
    Refines (streamData tolerance entries) (streamData tolerance' entries) := by
  intro c data c' h
  unfold streamData at h ⊢
  dsimp only at h ⊢
  split at h
  · exact h
  · rw [within.streams, if_neg Bool.false_ne_true] at h
    split at h <;> cases h

theorem refines_dictOrStream (within : tolerance.Within tolerance') (entries : Dict Object) :
    Refines (dictOrStream tolerance entries) (dictOrStream tolerance' entries) := by
  intro c x c' h
  unfold dictOrStream at h ⊢
  split at h
  · split at h
    · rename_i data c₂ hdata
      rw [refines_streamData within entries _ _ _ hdata]
      exact h
    · cases h
  · exact h

variable {item item' : Token → Reader Object}

theorem refines_items (hitem : ∀ t, Refines (item t) (item' t)) (acc : List Object)
    (rounds : Nat) : Refines (items item acc rounds) (items item' acc rounds) := by
  induction rounds generalizing acc with
  | zero => exact refines_refl _
  | succ rounds ih =>
    refine (refines_refl significant).bind fun t => ?_
    cases t with
    | arrayClose => exact refines_refl _
    | _ => exact (hitem _).bind fun x => ih (x :: acc)

theorem refines_entries (hitem : ∀ t, Refines (item t) (item' t)) (acc : Dict Object)
    (rounds : Nat) : Refines (entries item acc rounds) (entries item' acc rounds) := by
  induction rounds generalizing acc with
  | zero => exact refines_refl _
  | succ rounds ih =>
    refine (refines_refl significant).bind fun t => ?_
    cases t with
    | name n =>
      refine (refines_refl significant).bind fun t => ?_
      exact (hitem t).bind fun x => ih (acc.insert n x)
    | _ => exact refines_refl _

end Reader

namespace Object

open Reader

variable {tolerance tolerance' : Tolerance}

/-- The reader of an object, by induction on the nesting that is left. -/
theorem refines_ofToken (within : tolerance.Within tolerance') {nesting nesting' : Nat}
    (hle : nesting ≤ nesting') (t : Token) :
    Refines (ofToken tolerance nesting t) (ofToken tolerance' nesting' t) := by
  induction nesting generalizing nesting' t with
  | zero =>
    intro c x c' h
    cases nesting' <;>
      cases t with
      | arrayOpen | dictOpen => cases h
      | _ => exact h
  | succ nesting ih =>
    obtain ⟨left, rfl⟩ : ∃ left, nesting' = left + 1 := ⟨nesting' - 1, by omega⟩
    have hitem : ∀ t, Refines (ofToken tolerance nesting t) (ofToken tolerance' left t) :=
      ih (by omega)
    cases t with
    | arrayOpen =>
      exact (Refines.rounds fun n => refines_items hitem [] n).bind fun _ => refines_refl _
    | dictOpen =>
      exact (Refines.rounds fun n => refines_entries hitem .empty n).bind fun entries =>
        refines_dictOrStream within entries
    | _ => exact refines_refl _

theorem refines_readDict (within : tolerance.Within tolerance') :
    Refines (readDict tolerance) (readDict tolerance') := by
  have hitem : ∀ t, Refines (ofToken tolerance (tolerance.maxNesting - 1) t)
      (ofToken tolerance' (tolerance'.maxNesting - 1) t) :=
    refines_ofToken within (Nat.sub_le_sub_right within.nesting 1)
  refine (refines_refl significant).bind fun t => ?_
  cases t with
  | dictOpen => exact Refines.rounds fun n => refines_entries hitem .empty n
  | _ => exact refines_refl _

theorem refines_read (within : tolerance.Within tolerance') :
    Refines (read tolerance) (read tolerance') :=
  (refines_refl significant).bind fun t => refines_ofToken within within.nesting t

theorem refines_readDefinition (within : tolerance.Within tolerance') :
    Refines (readDefinition tolerance) (readDefinition tolerance') :=
  (refines_refl Reader.header).bind fun _ => (refines_read within).bind fun _ => refines_refl _

end Object

end CrossReference
