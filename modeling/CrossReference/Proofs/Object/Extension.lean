import CrossReference.Object.Reader
import CrossReference.Proofs.Token.Extension

set_option autoImplicit false

/-! # Objects in a longer document

An object that was read in a document is read in the same way if the document goes on behind a line
feed. The delicate point is the look ahead: behind an integer and behind a dictionary the reader
asks for the next tokens and stays where it is if they do not suit. If the document ended there,
more bytes could make them suit. But inside an array or a dictionary it cannot have ended, since the
closing bracket is still to come: `GoesOn` is what this leaves for the reader of one item, and
`goesOn_of_items` and `goesOn_of_entries` get it from the loop around it. -/

namespace CrossReference

namespace Bytes

/-- An end of line stays what it is, unless it stands at the end and may still grow. -/
theorem lineEndLength_extend {text : Bytes} (h : text.drop (lineEndLength text) ≠ [])
    (more : Bytes) : lineEndLength (text ++ 0x0A :: more) = lineEndLength text := by
  cases text with
  | nil => exact absurd rfl h
  | cons b rest =>
    by_cases hreturn : b = 0x0D
    · subst hreturn
      cases rest with
      | nil => exact absurd rfl h
      | cons c rest =>
        by_cases hfeed : c = 0x0A
        · subst hfeed
          rfl
        · simp [lineEndLength, hfeed]
    · by_cases hfeed : b = 0x0A
      · subst hfeed
        rfl
      · simp [lineEndLength, hreturn, hfeed]

theorem lineEndLength_le (text : Bytes) : lineEndLength text ≤ text.length := by
  unfold lineEndLength
  split <;> simp

end Bytes

namespace Reader

variable {more : Bytes}

/-! ## What is still to come -/

/-- Whether a token follows that is not the end, and behind an integer another one. -/
def GoesOn (c : Cursor) : Prop :=
  ∃ t c₁, significant c = .ok t c₁ ∧ t ≠ .eof ∧
    ∀ value, t = .integer value → ∃ t' c₂, token c₁ = .ok t' c₂ ∧ t' ≠ .eof

/-- A token that is no comment is the next significant one. -/
theorem significant_of_token {c c₁ : Cursor} {t : Token} (h : token c = .ok t c₁)
    (hend : t ≠ .eof) (hcomment : ∀ text, t ≠ .comment text) : significant c = .ok t c₁ := by
  obtain ⟨n, hscan, rfl⟩ := exists_scan_of_token h
  obtain ⟨position, rest⟩ := c
  obtain ⟨white, tail, rfl, hwhite, hstop⟩ := Bytes.exists_run Byte.isWhite rest
  rw [Token.scan_white hwhite, Prod.mk.injEq] at hscan
  obtain ⟨hfound, rfl⟩ := hscan
  cases tail with
  | nil => exact absurd (Except.ok.inj hfound).symm hend
  | cons b tail =>
    have hb := Bytes.stops_cons.mp hstop
    have hpercent : b ≠ 0x25 := by
      rintro rfl
      exact hcomment _ (Except.ok.inj hfound).symm
    have hread := significant_of_scan hwhite hb hpercent (Prod.ext hfound rfl) position
    rw [hread]
    simp [Cursor.advance, Nat.add_assoc, List.drop_length_add_append]

/-- The next token is a comment, or it is the next one that is none. -/
theorem token_of_significant {c c₁ : Cursor} {t : Token} (h : significant c = .ok t c₁)
    (hend : t ≠ .eof) :
    (∃ text c₂, token c = .ok (.comment text) c₂) ∨ token c = .ok t c₁ := by
  obtain ⟨position, rest⟩ := c
  obtain ⟨white, tail, rfl, hwhite, hstop⟩ := Bytes.exists_run Byte.isWhite rest
  have hne := rest_ne_nil_of_token h hend
  unfold significant Cursor.skipComments at h
  dsimp only at h
  rw [Token.skipLength_white hwhite, Nat.zero_add] at h
  cases tail with
  | nil =>
    refine absurd ?_ hne
    unfold Cursor.skipComments Cursor.advance
    dsimp only
    rw [Token.skipLength_white hwhite, Nat.zero_add, Token.skipLength, List.append_nil,
      List.drop_length]
  | cons b tail =>
    have hb := Bytes.stops_cons.mp hstop
    have hscan := Token.scan_white hwhite (b :: tail)
    rw [Token.scan_of_not_white hb] at hscan
    by_cases hcomment : b = 0x25
    · subst hcomment
      exact Or.inl ⟨_, _, token_of_scan hscan position⟩
    · right
      rw [Token.skipLength, if_neg Bool.false_ne_true, if_neg (by simp [hb]), if_neg hcomment]
        at h
      rw [token_white hwhite, ← h]
      unfold Cursor.advance
      dsimp only
      rw [List.drop_left]

/-- The plain next tokens of a place behind which reading goes on. -/
theorem GoesOn.token {c : Cursor} (h : GoesOn c) :
    ∃ t c₁, token c = .ok t c₁ ∧ t ≠ .eof ∧
      ∀ value, t = .integer value → ∃ t' c₂, Reader.token c₁ = .ok t' c₂ ∧ t' ≠ .eof := by
  obtain ⟨t, c₁, hread, hend, hinteger⟩ := h
  rcases token_of_significant hread hend with ⟨text, c₂, hcomment⟩ | hplain
  · exact ⟨_, c₂, hcomment, Token.noConfusion, fun value hvalue => Token.noConfusion hvalue⟩
  · exact ⟨t, c₁, hplain, hend, hinteger⟩

/-! ## Looking ahead -/

theorem reference?_extend {value : Int} {c c' : Cursor} {k : Key}
    (h : reference? value c = some (k, c')) :
    reference? value (c.extend more) = some (k, c'.extend more) := by
  unfold reference? at h
  split at h
  · rename_i generation c₁ hfirst
    split at h
    · rename_i key word c₂ hkey hsecond
      rw [Option.ite_none_right_eq_some, Option.some.injEq] at h
      obtain ⟨hword, h⟩ := h
      cases h
      unfold reference?
      rw [token_extend hfirst Token.noConfusion]
      dsimp only
      rw [hkey, token_extend hsecond Token.noConfusion]
      dsimp only
      rw [if_pos hword]
    · cases h
  · cases h

/-- Where reading goes on, more bytes do not make a reference out of what is none. -/
theorem reference?_extend_none {value : Int} {c : Cursor} (h : reference? value c = none)
    (hgoes : GoesOn c) : reference? value (c.extend more) = none := by
  obtain ⟨t, c₁, hfirst, hend, hinteger⟩ := hgoes.token
  -- the tokens that the search looks at are all there, so it sees the same ones again
  unfold reference? at h ⊢
  rw [hfirst] at h
  rw [token_extend hfirst hend]
  cases t with
  | integer generation =>
    obtain ⟨t', c₂, hsecond, hend'⟩ := hinteger generation rfl
    dsimp only at h ⊢
    rw [hsecond] at h
    rw [token_extend hsecond hend']
    cases hkey : key? value generation with
    | none => rfl
    | some key =>
      rw [hkey] at h
      cases t' with
      | keyword word =>
        dsimp only at h ⊢
        by_cases hword : word = ascii "R"
        · rw [if_pos hword] at h
          cases h
        · rw [if_neg hword]
      | _ => rfl
  | _ => rfl

theorem integerOrReference_extend {value : Int} {c c' : Cursor} {x : Object}
    (h : integerOrReference value c = .ok x c') (hgoes : GoesOn c') :
    integerOrReference value (c.extend more) = .ok x (c'.extend more) := by
  unfold integerOrReference at h ⊢
  cases href : reference? value c with
  | some found =>
    obtain ⟨key, c₁⟩ := found
    rw [href] at h
    cases h
    rw [reference?_extend href]
  | none =>
    rw [href] at h
    cases h
    rw [reference?_extend_none href hgoes]

/-- Behind an integer that goes on, or that begins a reference, a token follows. -/
theorem token_of_integerOrReference {value : Int} {c c' : Cursor} {x : Object}
    (h : integerOrReference value c = .ok x c') (hgoes : GoesOn c') :
    ∃ t c₁, token c = .ok t c₁ ∧ t ≠ .eof := by
  unfold integerOrReference at h
  cases href : reference? value c with
  | some found =>
    unfold reference? at href
    split at href
    · rename_i generation c₁ hfirst
      exact ⟨_, c₁, hfirst, Token.noConfusion⟩
    · cases href
  | none =>
    rw [href] at h
    cases h
    obtain ⟨t, c₁, hfirst, hend, _⟩ := hgoes.token
    exact ⟨t, c₁, hfirst, hend⟩

/-! ## Streams -/

variable {tolerance : Tolerance}

/-- Data of a declared length is there, and the keyword `endstream` behind it. -/
theorem declaredData?_eq_some {length : Nat} {c c' : Cursor} {data : Bytes} :
    declaredData? length c = some (data, c') ↔
      length ≤ c.rest.length ∧ token (c.advance length) = .ok (.reserved .endStream) c' ∧
        data = c.rest.take length := by
  unfold declaredData?
  dsimp only
  rw [Option.ite_none_left_eq_some, List.length_take]
  constructor
  · rintro ⟨henough, h⟩
    split at h
    · rename_i hend
      cases h
      exact ⟨by omega, hend, rfl⟩
    · cases h
  · rintro ⟨hle, hend, rfl⟩
    rw [hend]
    exact ⟨by omega, rfl⟩

theorem rest_ne_nil_of_declaredData? {length : Nat} {c c' : Cursor} {data : Bytes}
    (h : declaredData? length c = some (data, c')) : c.rest ≠ [] := by
  have hne := rest_ne_nil_of_token (declaredData?_eq_some.mp h).2.1 Token.noConfusion
  intro hnil
  unfold Cursor.advance at hne
  rw [hnil, List.drop_nil] at hne
  exact hne rfl

theorem declaredData?_extend {length : Nat} {c c' : Cursor} {data : Bytes}
    (h : declaredData? length c = some (data, c')) :
    declaredData? length (c.extend more) = some (data, c'.extend more) := by
  obtain ⟨hle, hend, rfl⟩ := declaredData?_eq_some.mp h
  refine declaredData?_eq_some.mpr ⟨?_, ?_, ?_⟩
  · change length ≤ (c.rest ++ 0x0A :: more).length
    rw [List.length_append]
    omega
  · rw [Cursor.extend_advance hle]
    exact token_extend hend Token.noConfusion
  · exact (List.take_append_of_le_length hle).symm

/-- A reader that searches no stream data only takes data of the declared length. -/
theorem streamData_extend (hstrict : tolerance.lenientStreams = false) {entries : Dict Object}
    {c c' : Cursor} {data : Bytes} (h : streamData tolerance entries c = .ok data c') :
    streamData tolerance entries (c.extend more) = .ok data (c'.extend more) := by
  unfold streamData at h ⊢
  dsimp only at h ⊢
  split at h
  · rename_i data' c₁ hdata
    cases h
    obtain ⟨length, hlength, hdeclared⟩ := Option.bind_eq_some_iff.mp hdata
    have hextend : declaredData? length
        ((c.advance (Bytes.lineEndLength c.rest)).extend more) = some (data, c'.extend more) :=
      declaredData?_extend hdeclared
    have hne := rest_ne_nil_of_declaredData? hdeclared
    have hline : Bytes.lineEndLength (c.extend more).rest = Bytes.lineEndLength c.rest :=
      Bytes.lineEndLength_extend hne more
    rw [hline, Cursor.extend_advance (Bytes.lineEndLength_le _), hlength, Option.bind_some,
      hextend]
  · rw [hstrict, if_neg Bool.false_ne_true] at h
    split at h <;> cases h

/-- Whether what follows an object does not matter to it, or is known to be there. -/
def Settled (x : Object) (c : Cursor) : Prop :=
  (∃ entries data, x = .stream entries data) ∨ GoesOn c

theorem dictOrStream_extend (hstrict : tolerance.lenientStreams = false) {entries : Dict Object}
    {c c' : Cursor} {x : Object} (h : dictOrStream tolerance entries c = .ok x c')
    (hsettled : Settled x c') :
    dictOrStream tolerance entries (c.extend more) = .ok x (c'.extend more) := by
  unfold dictOrStream at h ⊢
  split at h
  · rename_i c₁ hstream
    rw [significant_extend hstream Token.noConfusion]
    dsimp only
    split at h
    · rename_i data c₂ hdata
      cases h
      rw [streamData_extend hstrict hdata]
    · cases h
  · rename_i hother
    cases h
    rcases hsettled with ⟨entries', data, hx⟩ | ⟨t, c₁, hread, hend, _⟩
    · cases hx
    · rw [significant_extend hread hend]
      split
      · rename_i hextended
        cases hextended
        exact absurd hread (hother c₁)
      · rfl

/-! ## Arrays and dictionaries -/

/-- What the loops need to know about the reader of one item. -/
structure ItemExtends (more : Bytes) (item : Token → Reader Object) : Prop where
  eof : ∀ c x c', item .eof c ≠ .ok x c'
  integer : ∀ value c x c', item (.integer value) c = .ok x c' → GoesOn c' →
    ∃ t c₁, token c = .ok t c₁ ∧ t ≠ .eof
  extend : ∀ t c x c', item t c = .ok x c' → Settled x c' →
    item t (c.extend more) = .ok x (c'.extend more)

variable {item : Token → Reader Object}

theorem goesOn_of_items (hitem : ItemExtends more item) {acc xs : List Object} {rounds : Nat}
    {c c' : Cursor} (h : items item acc rounds c = .ok xs c') : GoesOn c := by
  induction rounds generalizing acc c with
  | zero => cases h
  | succ rounds ih =>
    obtain ⟨t, c₁, hread, h⟩ := bind_eq_ok.mp h
    have hstep : t = .arrayClose ∨
        ∃ x c₂, item t c₁ = .ok x c₂ ∧ items item (x :: acc) rounds c₂ = .ok xs c' := by
      cases t with
      | arrayClose => exact Or.inl rfl
      | _ => exact Or.inr (bind_eq_ok.mp h)
    rcases hstep with rfl | ⟨x, c₂, hx, hrest⟩
    · exact ⟨_, c₁, hread, Token.noConfusion, fun value hvalue => Token.noConfusion hvalue⟩
    · refine ⟨t, c₁, hread, ?_, ?_⟩
      · rintro rfl
        exact hitem.eof c₁ x c₂ hx
      · rintro value rfl
        exact hitem.integer value c₁ x c₂ hx (ih hrest)

theorem items_extend (hitem : ItemExtends more item) {acc xs : List Object} {rounds : Nat}
    {c c' : Cursor} (h : items item acc rounds c = .ok xs c') {rounds' : Nat}
    (hrounds : rounds ≤ rounds') :
    items item acc rounds' (c.extend more) = .ok xs (c'.extend more) := by
  induction rounds generalizing acc c rounds' with
  | zero => cases h
  | succ rounds ih =>
    obtain ⟨left, rfl⟩ : ∃ left, rounds' = left + 1 := ⟨rounds' - 1, by omega⟩
    have hgoes := goesOn_of_items hitem h
    obtain ⟨t, c₁, hread, h⟩ := bind_eq_ok.mp h
    have hend : t ≠ .eof := by
      obtain ⟨t', c₁', hread', hend, _⟩ := hgoes
      rw [hread] at hread'
      cases hread'
      exact hend
    refine bind_eq_ok.mpr ⟨t, c₁.extend more, significant_extend hread hend, ?_⟩
    -- behind an item the loop reads on to its bracket, which settles where the item ends
    have hstep : ∀ x c₂, item t c₁ = .ok x c₂ → items item (x :: acc) rounds c₂ = .ok xs c' →
        (item t >>= fun x => items item (x :: acc) left) (c₁.extend more) =
          .ok xs (c'.extend more) := by
      intro x c₂ hx hrest
      refine bind_eq_ok.mpr ⟨x, c₂.extend more, ?_, ih hrest (by omega)⟩
      exact hitem.extend t c₁ x c₂ hx (Or.inr (goesOn_of_items hitem hrest))
    cases t with
    | arrayClose =>
      cases h
      rfl
    | _ =>
      obtain ⟨x, c₂, hx, hrest⟩ := bind_eq_ok.mp h
      exact hstep x c₂ hx hrest

/-- A round of the reader of entries: the dictionary ends, or a name and its value are read. -/
theorem entries_succ_eq_ok {acc d : Dict Object} {rounds : Nat} {c c' : Cursor} :
    entries item acc (rounds + 1) c = .ok d c' ↔
      (significant c = .ok .dictClose c' ∧ acc = d) ∨
      ∃ n c₁ t c₂ x c₃, significant c = .ok (.name n) c₁ ∧ significant c₁ = .ok t c₂ ∧
        item t c₂ = .ok x c₃ ∧ entries item (acc.insert n x) rounds c₃ = .ok d c' := by
  constructor
  · intro h
    obtain ⟨t, c₁, hread, h⟩ := bind_eq_ok.mp h
    cases t with
    | dictClose =>
      cases h
      exact Or.inl ⟨hread, rfl⟩
    | name n =>
      obtain ⟨t, c₂, ht, h⟩ := bind_eq_ok.mp h
      obtain ⟨x, c₃, hx, h⟩ := bind_eq_ok.mp h
      exact Or.inr ⟨n, c₁, t, c₂, x, c₃, hread, ht, hx, h⟩
    | _ => cases h
  · rintro (⟨hread, rfl⟩ | ⟨n, c₁, t, c₂, x, c₃, hread, ht, hx, h⟩)
    · exact bind_eq_ok.mpr ⟨_, c', hread, rfl⟩
    · exact bind_eq_ok.mpr ⟨_, c₁, hread, bind_eq_ok.mpr ⟨t, c₂, ht, bind_eq_ok.mpr ⟨x, c₃, hx, h⟩⟩⟩

theorem goesOn_of_entries {acc d : Dict Object} {rounds : Nat} {c c' : Cursor}
    (h : entries item acc rounds c = .ok d c') : GoesOn c := by
  cases rounds with
  | zero => cases h
  | succ rounds =>
    rcases entries_succ_eq_ok.mp h with ⟨hread, _⟩ | ⟨n, c₁, t, c₂, x, c₃, hread, _⟩
    · exact ⟨_, c', hread, Token.noConfusion, fun value hvalue => Token.noConfusion hvalue⟩
    · exact ⟨_, c₁, hread, Token.noConfusion, fun value hvalue => Token.noConfusion hvalue⟩

theorem entries_extend (hitem : ItemExtends more item) {acc d : Dict Object} {rounds : Nat}
    {c c' : Cursor} (h : entries item acc rounds c = .ok d c') {rounds' : Nat}
    (hrounds : rounds ≤ rounds') :
    entries item acc rounds' (c.extend more) = .ok d (c'.extend more) := by
  induction rounds generalizing acc c rounds' with
  | zero => cases h
  | succ rounds ih =>
    obtain ⟨left, rfl⟩ : ∃ left, rounds' = left + 1 := ⟨rounds' - 1, by omega⟩
    rcases entries_succ_eq_ok.mp h with ⟨hread, rfl⟩ | ⟨n, c₁, t, c₂, x, c₃, hread, ht, hx, hrest⟩
    · exact entries_succ_eq_ok.mpr (Or.inl ⟨significant_extend hread Token.noConfusion, rfl⟩)
    · have hend : t ≠ .eof := by
        rintro rfl
        exact hitem.eof c₂ x c₃ hx
      exact entries_succ_eq_ok.mpr (Or.inr ⟨n, c₁.extend more, t, c₂.extend more, x, c₃.extend more,
        significant_extend hread Token.noConfusion, significant_extend ht hend,
        hitem.extend t c₂ x c₃ hx (Or.inr (goesOn_of_entries hrest)), ih hrest (by omega)⟩)

/-- A loop that comes to its end in some rounds does so in the longer document, where it has more of
    them. -/
theorem extends_rounds {α : Type} {loop : Nat → Reader α}
    (hloop : ∀ n c a c', loop n c = .ok a c' → ∀ n', n ≤ n' →
      loop n' (c.extend more) = .ok a (c'.extend more)) : Extends more (rounds loop) := by
  intro c a c' h
  refine hloop _ c a c' h _ ?_
  change c.rest.length ≤ (c.rest ++ 0x0A :: more).length
  rw [List.length_append]
  omega

end Reader

/-! ## Objects -/

namespace Object

open Reader

variable {more : Bytes} {tolerance : Tolerance}

theorem goesOn_of_settled {value : Int} {c c' : Cursor} {x : Object}
    (h : integerOrReference value c = .ok x c') (hsettled : Settled x c') : GoesOn c' := by
  rcases hsettled with ⟨entries, data, rfl⟩ | hgoes
  · unfold integerOrReference at h
    split at h <;> cases h
  · exact hgoes

/-- An object that begins with neither an array nor a dictionary. -/
theorem ofToken_extend_atom {nesting : Nat} {t : Token} (harray : t ≠ .arrayOpen)
    (hdict : t ≠ .dictOpen) {c c' : Cursor} {x : Object}
    (h : ofToken tolerance nesting t c = .ok x c') (hsettled : Settled x c') :
    ofToken tolerance nesting t (c.extend more) = .ok x (c'.extend more) := by
  cases nesting <;>
    cases t with
    | integer value => exact integerOrReference_extend h (goesOn_of_settled h hsettled)
    | arrayOpen => exact absurd rfl harray
    | dictOpen => exact absurd rfl hdict
    | null | bool | real | string | name => cases h; rfl
    | _ => cases h

/-- The reader of an object, by induction on the nesting that is left. -/
theorem itemExtends_ofToken (hstrict : tolerance.lenientStreams = false) (nesting : Nat) :
    ItemExtends more (ofToken tolerance nesting) := by
  induction nesting with
  | zero =>
    refine ⟨fun _ _ _ h => (nomatch h), fun _ _ _ _ => token_of_integerOrReference, ?_⟩
    intro t c x c' h hsettled
    by_cases harray : t = .arrayOpen
    · subst harray
      cases h
    by_cases hdict : t = .dictOpen
    · subst hdict
      cases h
    exact ofToken_extend_atom harray hdict h hsettled
  | succ nesting ih =>
    refine ⟨fun _ _ _ h => (nomatch h), fun _ _ _ _ => token_of_integerOrReference, ?_⟩
    intro t c x c' h hsettled
    by_cases harray : t = .arrayOpen
    · subst harray
      have hitems : Extends more (rounds (items (ofToken tolerance nesting) [])) :=
        extends_rounds fun _ _ _ _ hloop _ hrounds => items_extend ih hloop hrounds
      exact (hitems.bind fun _ => extends_pure _) c x c' h
    by_cases hdict : t = .dictOpen
    · subst hdict
      have hentries : Extends more (rounds (entries (ofToken tolerance nesting) .empty)) :=
        extends_rounds fun _ _ _ _ hloop _ hrounds => entries_extend ih hloop hrounds
      obtain ⟨d, c₁, hd, h⟩ := bind_eq_ok.mp h
      exact bind_eq_ok.mpr ⟨d, c₁.extend more, hentries c d c₁ hd,
        dictOrStream_extend hstrict h hsettled⟩
    exact ofToken_extend_atom harray hdict h hsettled

theorem extends_readDict (hstrict : tolerance.lenientStreams = false) :
    Extends more (readDict tolerance) := by
  intro c d c' h
  obtain ⟨t, c₁, hread, h⟩ := bind_eq_ok.mp h
  cases t with
  | dictOpen =>
    have hentries : Extends more
        (rounds (entries (ofToken tolerance (tolerance.maxNesting - 1)) .empty)) :=
      extends_rounds fun _ _ _ _ hloop _ hrounds =>
        entries_extend (itemExtends_ofToken hstrict _) hloop hrounds
    exact bind_eq_ok.mpr ⟨_, c₁.extend more, significant_extend hread Token.noConfusion,
      hentries c₁ d c' h⟩
  | _ => cases h

theorem read_extend (hstrict : tolerance.lenientStreams = false) {c c' : Cursor} {x : Object}
    (h : read tolerance c = .ok x c') (hsettled : Settled x c') :
    read tolerance (c.extend more) = .ok x (c'.extend more) := by
  obtain ⟨t, c₁, hread, h⟩ := bind_eq_ok.mp h
  have hitem : ItemExtends more (ofToken tolerance tolerance.maxNesting) :=
    itemExtends_ofToken hstrict _
  have hend : t ≠ .eof := by
    rintro rfl
    exact hitem.eof c₁ x c' h
  exact bind_eq_ok.mpr ⟨t, c₁.extend more, significant_extend hread hend,
    hitem.extend t c₁ x c' h hsettled⟩

/-- A definition is a header and an object behind it. Whether the keyword behind the object is there
    makes no difference to what is read. -/
theorem exists_readDefinition_iff {c : Cursor} {key : Key} {x : Object} :
    (∃ c', readDefinition tolerance c = .ok (key, x) c') ↔
      ∃ c₁ c₂, Reader.header c = .ok key c₁ ∧ read tolerance c₁ = .ok x c₂ := by
  constructor
  · rintro ⟨c', h⟩
    obtain ⟨key', c₁, hheader, h⟩ := bind_eq_ok.mp h
    obtain ⟨x', c₂, hx, h⟩ := bind_eq_ok.mp h
    have hfound : key' = key ∧ x' = x := by
      split at h <;> (cases h; exact ⟨rfl, rfl⟩)
    obtain ⟨rfl, rfl⟩ := hfound
    exact ⟨c₁, c₂, hheader, hx⟩
  · rintro ⟨c₁, c₂, hheader, hx⟩
    by_cases hend : ∃ c₃, token c₂ = .ok (.reserved .endObj) c₃
    · obtain ⟨c₃, hend⟩ := hend
      refine ⟨c₃, bind_eq_ok.mpr ⟨key, c₁, hheader, bind_eq_ok.mpr ⟨x, c₂, hx, ?_⟩⟩⟩
      rw [hend]
    · refine ⟨c₂, bind_eq_ok.mpr ⟨key, c₁, hheader, bind_eq_ok.mpr ⟨x, c₂, hx, ?_⟩⟩⟩
      split
      · rename_i c₃ hread
        exact absurd ⟨c₃, hread⟩ hend
      · rfl

/-- The definition of a stream is read in the same way. Where it ends may differ, since the keyword
    behind it may be missing. -/
theorem readDefinition_extend (hstrict : tolerance.lenientStreams = false) {c c' : Cursor}
    {key : Key} {entries : Dict Object} {data : Bytes}
    (h : readDefinition tolerance c = .ok (key, .stream entries data) c') :
    ∃ c'', readDefinition tolerance (c.extend more) = .ok (key, .stream entries data) c'' := by
  obtain ⟨c₁, c₂, hheader, hx⟩ := exists_readDefinition_iff.mp ⟨c', h⟩
  exact exists_readDefinition_iff.mpr ⟨c₁.extend more, c₂.extend more,
    extends_header c key c₁ hheader, read_extend hstrict hx (Or.inl ⟨entries, data, rfl⟩)⟩

end Object

end CrossReference
