import CrossReference.Proofs.Chain.Transfer

set_option autoImplicit false

/-! # The route in a longer document

A walk that had nothing to complain about takes the same way in a document that goes on behind a
line feed: each of its sections is read alike there (`carries_extend`), and the offsets that a newer
part of the walk has followed lie behind the old end, so they cannot be met again. -/

namespace CrossReference

variable {options : Options} {file more : Bytes} {later : List Nat}

/-- What a reader must leave alone for its walks to be the same in a longer document: it looks
    neither for the ends of streams nor for other sections. -/
structure Options.Literal (options : Options) : Prop where
  streams : options.lenientStreams = false
  links : options.repairOffsets = false

theorem Options.literal_strict : Options.strict.Literal := ⟨rfl, rfl⟩

theorem carries_extend (hliteral : options.Literal) :
    Carries options options file (file ++ 0x0A :: more) where
  probe h := Section.probe_extend hliteral.streams h
  stream h := Section.readStream_extend hliteral.streams h
  table hoffset h hnotes :=
    ⟨_, Section.readTable_extend hliteral.streams hoffset h, rfl, hnotes⟩

theorem LinkRole.holds_extend (hliteral : options.Literal) {role : LinkRole} {offset : Nat}
    (h : role.holds options file offset = true) :
    role.holds options (file ++ 0x0A :: more) offset = true :=
  holds_carry (carries_extend hliteral) h

/-- A walk without complaints reads the same sections in the longer document, if it may read as
    many. -/
theorem Route.legsFrom_extend (hliteral : options.Literal) (hlater : ∀ x ∈ later, file.length ≤ x)
    {left left' offset : Nat} {visited : List Nat} (hoffset : offset < file.length)
    (hquiet : ∀ l ∈ legsFrom options file visited offset left, l.notes = [])
    (hlast : endingFrom options file visited offset left = .last)
    (henough : (legsFrom options file visited offset left).length ≤ left') :
    legsFrom options (file ++ 0x0A :: more) (visited ++ later) offset left' =
      legsFrom options file visited offset left ∧
    endingFrom options (file ++ 0x0A :: more) (visited ++ later) offset left' = .last :=
  legsFrom_carry (carries_extend hliteral) hlater hoffset hquiet hlast henough

end CrossReference
