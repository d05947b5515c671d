import CrossReference.Proofs.Object.RoundTrip
import CrossReference.Proofs.Object.Written
import CrossReference.Proofs.Token.Progress

set_option autoImplicit false

/-! # Objects that are read are not nested too deep

Whatever the bytes are, an object that is read has no more arrays and dictionaries inside each other
than the options allow, and it took at least a byte. The readers are put together from smaller ones,
and `Delivers` is what is carried along: a property of what is read, and how far the reader comes.
Items and entries that have a depth make an array or a dictionary that is one deeper
(`delivers_items`, `delivers_entries`), and the reader of nested objects is called with one level
less; `delivers_ofToken` is the induction on the levels. The look ahead behind an integer or a
dictionary gives bytes back, but never the first token. -/

namespace CrossReference

theorem Dict.mem_insertEntry {α : Type} {n : Name} {value : α} {entries : List (Name × α)}
    {e : Name × α} (h : e ∈ insertEntry n value entries) : e = (n, value) ∨ e ∈ entries := by
  induction entries with
  | nil => exact Or.inl (List.mem_singleton.mp h)
  | cons entry rest ih =>
    obtain ⟨m, old⟩ := entry
    unfold insertEntry at h
    split at h
    · exact (List.mem_cons.mp h).imp_right (List.mem_cons_of_mem _)
    · rcases List.mem_cons.mp h with rfl | h
      · exact Or.inr List.mem_cons_self
      · exact (ih h).imp_right (List.mem_cons_of_mem _)

namespace Reader

open Cursor (reaches_advance reaches_refl)

/-! ## What a reader delivers -/

/-- Whether all that a reader reads has a property, and the reader stops at least so many bytes
    further on. -/
def Delivers {α : Type} (least : Nat) (P : α → Prop) (r : Reader α) : Prop :=
  ∀ c a c', r c = .ok a c' → P a ∧ c.Reaches least c'

section Combinators

variable {α β : Type} {least : Nat} {P : α → Prop} {Q : β → Prop} {r : Reader α}

theorem delivers_pure {a : α} (ha : P a) : Delivers 0 P (pure a) := by
  intro c a' c' h
  cases h
  exact ⟨ha, reaches_refl c⟩

theorem delivers_throw (e : Error) : Delivers least P (throw e : Reader α) :=
  fun _ _ _ h => nomatch h

theorem delivers_fail (fault : SyntaxFault) : Delivers least P (fail fault : Reader α) :=
  fun _ _ _ h => nomatch h

theorem Delivers.reaches {c c' : Cursor} {a : α} (hr : Delivers least P r) (h : r c = .ok a c') :
    c.Reaches least c' :=
  (hr c a c' h).2

theorem Delivers.weaken (hr : Delivers least P r) : Delivers 0 P r :=
  fun c a c' h => ⟨(hr c a c' h).1, (hr.reaches h).mono (Nat.zero_le least)⟩

theorem Delivers.bind {f : α → Reader β} (hr : Delivers least P r)
    (hf : ∀ a, P a → Delivers 0 Q (f a)) : Delivers least Q (r >>= f) := by
  intro c b c' h
  obtain ⟨a, c₁, hra, hfa⟩ := bind_eq_ok.mp h
  obtain ⟨ha, hreaches⟩ := hr c a c₁ hra
  obtain ⟨hb, hreaches'⟩ := hf a ha c₁ b c' hfa
  exact ⟨hb, hreaches.trans hreaches'⟩

theorem delivers_rounds {loop : Nat → Reader α} (h : ∀ n, Delivers least P (loop n)) :
    Delivers least P (rounds loop) :=
  fun c a c' hread => h _ c a c' hread

end Combinators

/-! ## Tokens -/

theorem reaches_of_token {c c' : Cursor} {t : Token} (h : token c = .ok t c') (hend : t ≠ .eof) :
    c.Reaches 1 c' := by
  rcases token_cases c with ⟨_, hread⟩ | ⟨_, c₁, hreaches, ⟨t', _, hread⟩ | ⟨e, hread⟩⟩
  · cases hread.symm.trans h
    exact absurd rfl hend
  · cases hread.symm.trans h
    exact hreaches
  · cases hread.symm.trans h

theorem reaches_skipComments (c : Cursor) : c.Reaches 0 c.skipComments := by
  have hbounds := Token.skipLength_bounds false 0 c.rest
  rw [Nat.zero_add] at hbounds
  exact (reaches_advance hbounds.2).mono (Nat.zero_le _)

theorem reaches_of_significant {c c' : Cursor} {t : Token} (h : significant c = .ok t c')
    (hend : t ≠ .eof) : c.Reaches 1 c' :=
  (reaches_skipComments c).trans (reaches_of_token h hend)

theorem delivers_token : Delivers 0 (fun _ => True) token := by
  intro c t c' h
  obtain ⟨n, hscan, rfl⟩ := exists_scan_of_token h
  have hle := Token.scan_le c.rest
  rw [hscan] at hle
  exact ⟨trivial, (reaches_advance hle).mono (Nat.zero_le n)⟩

theorem delivers_significant : Delivers 0 (fun _ => True) significant :=
  fun c _ _ h => ⟨trivial, (reaches_skipComments c).trans (delivers_token.reaches h)⟩

theorem delivers_integer : Delivers 1 (fun _ => True) integer := by
  intro c value c' h
  obtain ⟨t, c₁, htoken, h⟩ := bind_eq_ok.mp h
  cases t with
  | integer found =>
    cases h
    exact ⟨trivial, reaches_of_token htoken Token.noConfusion⟩
  | _ => cases h

theorem delivers_expect (word : Bytes) : Delivers 1 (fun _ => True) (expect word) := by
  intro c _ c' h
  obtain ⟨t, c₁, htoken, h⟩ := bind_eq_ok.mp h
  split at h
  · rename_i hword
    cases h
    refine ⟨trivial, reaches_of_token htoken ?_⟩
    rintro rfl
    cases hword
  · cases h

theorem delivers_header : Delivers 1 (fun _ => True) header := by
  have hparts : Delivers 1 (fun _ => True) (do
      let number ← integer
      let generation ← integer
      expect Reserved.obj.spelling
      return (number, generation) : Reader (Int × Int)) :=
    delivers_integer.bind fun _ _ => (delivers_integer.bind fun _ _ =>
      ((delivers_expect _).bind fun _ _ => delivers_pure trivial).weaken).weaken
  intro c key c' h
  unfold header at h
  dsimp only at h
  split at h
  · cases h
  · rename_i hread
    split at h
    · cases h
      exact hparts c _ _ hread
    · cases h

/-! ## Looking ahead -/

/-- An integer and a reference are not nested, and what does not suit behind an integer is given
    back. -/
theorem delivers_integerOrReference (value : Int) (depth : Nat) :
    Delivers 0 (fun x => x.depth ≤ depth) (integerOrReference value) := by
  intro c x c' h
  unfold integerOrReference at h
  split at h
  · rename_i key c₁ href
    cases h
    refine ⟨Nat.zero_le depth, ?_⟩
    unfold reference? at href
    split at href
    · rename_i generation c₂ hfirst
      split at href
      · rename_i hsecond
        rw [Option.ite_none_right_eq_some, Option.some.injEq] at href
        obtain ⟨_, href⟩ := href
        cases href
        exact (delivers_token.reaches hfirst).trans (delivers_token.reaches hsecond)
      · cases href
    · cases href
  · cases h
    exact ⟨Nat.zero_le depth, reaches_refl c⟩

theorem delivers_searchedData (limit : Nat) : Delivers 0 (fun _ => True) (searchedData limit) := by
  intro c data c' h
  unfold searchedData at h
  split at h
  · cases h
  · rename_i endOffset _
    dsimp only at h
    generalize endOffset - c.position = length at h
    split at h
    · rename_i hexpect
      cases h
      have hreaches := (delivers_expect _).reaches hexpect
      -- the keyword was found there, so the data does not go beyond the end
      have hlength : length ≤ c.rest.length := by
        have hle := hreaches.length_le
        have hleft : (c.advance length).rest.length = c.rest.length - length := List.length_drop
        omega
      exact ⟨trivial, ((reaches_advance hlength).trans hreaches).mono (Nat.zero_le _)⟩
    · cases h

theorem delivers_streamData (tolerance : Tolerance) (entries : Dict Object) :
    Delivers 0 (fun _ => True) (streamData tolerance entries) := by
  intro c data c' h
  have hline := reaches_advance (Bytes.lineEndLength_le c.rest)
  unfold streamData at h
  dsimp only at h
  split at h
  · rename_i hdata
    cases h
    obtain ⟨length, _, hdeclared⟩ := Option.bind_eq_some_iff.mp hdata
    obtain ⟨hlength, hend, _⟩ := declaredData?_eq_some.mp hdeclared
    have hreaches := (reaches_advance hlength).trans (delivers_token.reaches hend)
    exact ⟨trivial, (hline.trans hreaches).mono (Nat.zero_le _)⟩
  · split at h
    · have hreaches := (delivers_searchedData _).reaches h
      exact ⟨trivial, (hline.trans hreaches).mono (Nat.zero_le _)⟩
    · split at h <;> cases h

/-- A stream is nested as deep as its dictionary. -/
theorem delivers_dictOrStream (tolerance : Tolerance) {entries : Dict Object} {depth : Nat}
    (hdepth : (Object.dict entries).depth ≤ depth) :
    Delivers 0 (fun x => x.depth ≤ depth) (dictOrStream tolerance entries) := by
  intro c x c' h
  unfold dictOrStream at h
  split at h
  · rename_i hstream
    split at h
    · rename_i hdata
      cases h
      exact ⟨hdepth, (delivers_significant.reaches hstream).trans
        ((delivers_streamData tolerance entries).reaches hdata)⟩
    · cases h
  · cases h
    exact ⟨hdepth, reaches_refl c⟩

/-! ## Arrays and dictionaries -/

section Loops

variable {item : Token → Reader Object} {depth : Nat}

theorem delivers_items (hitem : ∀ t, Delivers 0 (fun x => x.depth ≤ depth) (item t))
    (acc : List Object) (hacc : ∀ x ∈ acc, x.depth ≤ depth) (rounds : Nat) :
    Delivers 0 (fun xs => ∀ x ∈ xs, x.depth ≤ depth) (items item acc rounds) := by
  induction rounds generalizing acc with
  | zero => exact delivers_fail _
  | succ rounds ih =>
    refine delivers_significant.bind fun t _ => ?_
    cases t with
    | arrayClose => exact delivers_pure fun x hx => hacc x (List.mem_reverse.mp hx)
    | _ => exact (hitem _).bind fun x hx => ih (x :: acc) (List.forall_mem_cons.mpr ⟨hx, hacc⟩)

theorem delivers_entries (hitem : ∀ t, Delivers 0 (fun x => x.depth ≤ depth) (item t))
    (acc : Dict Object) (hacc : ∀ e ∈ acc.entries, e.2.depth ≤ depth) (rounds : Nat) :
    Delivers 0 (fun d => ∀ e ∈ d.entries, e.2.depth ≤ depth) (entries item acc rounds) := by
  induction rounds generalizing acc with
  | zero => exact delivers_throw _
  | succ rounds ih =>
    refine delivers_significant.bind fun t _ => ?_
    cases t with
    | dictClose => exact delivers_pure hacc
    | name n =>
      refine delivers_significant.bind fun t _ => (hitem t).bind fun x hx => ?_
      refine ih (acc.insert n x) fun e he => ?_
      rcases Dict.mem_insertEntry he with rfl | he
      · exact hx
      · exact hacc e he
    | _ => exact delivers_throw _

/-- An array is one deeper than its items. -/
theorem delivers_array (hitem : ∀ t, Delivers 0 (fun x => x.depth ≤ depth) (item t)) :
    Delivers 0 (fun xs => (Object.array xs).depth ≤ depth + 1) (rounds (items item [])) := by
  refine delivers_rounds fun n c xs c' h => ?_
  obtain ⟨hxs, hreaches⟩ := delivers_items hitem [] (fun _ hx => nomatch hx) n c xs c' h
  exact ⟨Nat.succ_le_succ (Object.depthItems_le.mpr hxs), hreaches⟩

/-- A dictionary is one deeper than its values. -/
theorem delivers_dict (hitem : ∀ t, Delivers 0 (fun x => x.depth ≤ depth) (item t)) :
    Delivers 0 (fun d => (Object.dict d).depth ≤ depth + 1) (rounds (entries item .empty)) := by
  refine delivers_rounds fun n c d c' h => ?_
  obtain ⟨hd, hreaches⟩ := delivers_entries hitem .empty (fun _ he => nomatch he) n c d c' h
  obtain ⟨list⟩ := d
  exact ⟨Nat.succ_le_succ (Object.depthEntries_le.mpr hd), hreaches⟩

end Loops

end Reader

namespace Object

open Reader

variable (tolerance : Tolerance)

/-- A token that opens nothing is an object, or an integer that may begin a reference. -/
theorem delivers_ofToken_atom (nesting : Nat) {t : Token} (harray : t ≠ .arrayOpen)
    (hdict : t ≠ .dictOpen) :
    Delivers 0 (fun x => x.depth ≤ nesting) (ofToken tolerance nesting t) := by
  cases nesting <;>
    cases t with
    | arrayOpen => exact absurd rfl harray
    | dictOpen => exact absurd rfl hdict
    | integer value => exact delivers_integerOrReference value _
    | null | bool | real | string | name => exact delivers_pure (Nat.zero_le _)
    | eof => exact delivers_fail _
    | _ => exact delivers_throw _

/-- The reader of an object, by induction on the nesting that is left. -/
theorem delivers_ofToken (nesting : Nat) (t : Token) :
    Delivers 0 (fun x => x.depth ≤ nesting) (ofToken tolerance nesting t) := by
  induction nesting generalizing t with
  | zero =>
    cases t with
    | arrayOpen | dictOpen => exact delivers_fail _
    | _ => exact delivers_ofToken_atom tolerance 0 Token.noConfusion Token.noConfusion
  | succ nesting ih =>
    cases t with
    | arrayOpen =>
      exact (delivers_array ih).bind fun xs hxs => delivers_pure hxs
    | dictOpen =>
      exact (delivers_dict ih).bind fun d hd => delivers_dictOrStream tolerance hd
    | _ => exact delivers_ofToken_atom tolerance _ Token.noConfusion Token.noConfusion

/-- The first token of an object is not given back. -/
theorem delivers_read :
    Delivers 1 (fun x => x.depth ≤ tolerance.maxNesting) (read tolerance) := by
  intro c x c' h
  obtain ⟨t, c₁, hread, h⟩ := bind_eq_ok.mp h
  have hend : t ≠ .eof := by
    rintro rfl
    generalize tolerance.maxNesting = nesting at h
    cases nesting <;> cases h
  obtain ⟨hdepth, hreaches⟩ := delivers_ofToken tolerance _ t c₁ x c' h
  exact ⟨hdepth, (reaches_of_significant hread hend).trans hreaches⟩

/-- The level of a dictionary that is asked for is not tested. -/
theorem delivers_readDict :
    Delivers 1 (fun d => (dict d).depth ≤ max 1 tolerance.maxNesting) (readDict tolerance) := by
  intro c d c' h
  obtain ⟨t, c₁, hread, h⟩ := bind_eq_ok.mp h
  cases t with
  | dictOpen =>
    obtain ⟨hdepth, hreaches⟩ :=
      delivers_dict (delivers_ofToken tolerance (tolerance.maxNesting - 1)) c₁ d c' h
    exact ⟨by omega, (reaches_of_significant hread Token.noConfusion).trans hreaches⟩
  | _ => cases h

theorem delivers_readDefinition :
    Delivers 1 (fun found => found.2.depth ≤ tolerance.maxNesting) (readDefinition tolerance) := by
  refine delivers_header.bind fun key _ => (delivers_read tolerance).weaken.bind fun x hx => ?_
  intro c found c' h
  dsimp only at h
  split at h
  · rename_i hend
    cases h
    exact ⟨hx, delivers_token.reaches hend⟩
  · cases h
    exact ⟨hx, Cursor.reaches_refl c⟩

variable {tolerance}

/-- Whatever is read at an offset of a document, an object, a definition or a dictionary, is nested
    at most as deep as the options allow, except that a dictionary that is asked for has its own
    level in any case; and the reader stops further on, but not beyond the end. -/
theorem nesting_bounded {file : Bytes} {p : Nat} (hp : p ≤ file.length) :
    (∀ x c, read tolerance ⟨p, file.drop p⟩ = .ok x c →
      x.depth ≤ tolerance.maxNesting ∧ p < c.position ∧ c.position ≤ file.length) ∧
    (∀ key x c, readDefinition tolerance ⟨p, file.drop p⟩ = .ok (key, x) c →
      x.depth ≤ tolerance.maxNesting ∧ p < c.position ∧ c.position ≤ file.length) ∧
    ∀ d c, readDict tolerance ⟨p, file.drop p⟩ = .ok d c →
      (dict d).depth ≤ max 1 tolerance.maxNesting ∧ p < c.position ∧ c.position ≤ file.length := by
  have hplace : ∀ c : Cursor, Cursor.Reaches 1 ⟨p, file.drop p⟩ c →
      p < c.position ∧ c.position ≤ file.length := by
    intro c hreaches
    obtain ⟨q, hpq, hq, rfl⟩ := hreaches.exists_offset hp
    exact ⟨hpq, hq⟩
  refine ⟨fun x c h => ?_, fun key x c h => ?_, fun d c h => ?_⟩
  · obtain ⟨hdepth, hreaches⟩ := delivers_read tolerance _ x c h
    exact ⟨hdepth, hplace c hreaches⟩
  · obtain ⟨hdepth, hreaches⟩ := delivers_readDefinition tolerance _ (key, x) c h
    exact ⟨hdepth, hplace c hreaches⟩
  · obtain ⟨hdepth, hreaches⟩ := delivers_readDict tolerance _ d c h
    exact ⟨hdepth, hplace c hreaches⟩

/-- A definition of an object with four levels. -/
def nestedText : Bytes := ascii "7 0 obj[[<< /A [1] >>]] endobj"

/-- The object that is defined. -/
def nestedObject : Object := array [array [dict ⟨[(⟨ascii "A"⟩, array [integer 1])]⟩]]

theorem printable_nestedObject : nestedObject.Printable :=
  .array (List.forall_mem_singleton.mpr (.array (List.forall_mem_singleton.mpr
    (.dict (by decide) (List.forall_mem_singleton.mpr
      (.array (List.forall_mem_singleton.mpr (.integer (by decide)))))))))

/-- Readers that allow just as many levels as it has. -/
def fourLevels : Tolerance := { Options.strict.toTolerance with maxNesting := 4 }

/-- Readers that allow no level at all. They read an empty dictionary if they are asked for one. -/
def noLevels : Tolerance := { Options.strict.toTolerance with maxNesting := 0 }

/-- The object and its definition are read with the levels that it has, and a dictionary is read
    with none. -/
theorem nestedText_bounded :
    (read fourLevels ⟨7, nestedText.drop 7⟩ = .ok nestedObject ⟨23, nestedText.drop 23⟩ ∧
      nestedObject.depth ≤ 4 ∧ 7 < 23 ∧ 23 ≤ nestedText.length) ∧
    (readDefinition fourLevels ⟨0, nestedText⟩ = .ok (⟨7, 0⟩, nestedObject) ⟨30, []⟩ ∧
      nestedObject.depth ≤ 4 ∧ 0 < 30 ∧ 30 ≤ nestedText.length) ∧
    readDict noLevels ⟨0, ascii " << >>"⟩ = .ok .empty ⟨6, []⟩ ∧
      (dict .empty).depth ≤ max 1 0 ∧ 0 < 6 ∧ 6 ≤ (ascii " << >>").length := by
  have hends : Ends (nestedText.drop 23) :=
    ends_gap .space Byte.space_ne_nil (unrelated_endObj Bytes.stops_nil)
  have hread : read fourLevels ⟨7, nestedText.drop 7⟩ =
      .ok nestedObject ⟨23, nestedText.drop 23⟩ :=
    (read_eq_ofToken plainStyle fourLevels printable_nestedObject hends.stops 7).trans
      (reads_ofToken printable_nestedObject (by decide) _ _ hends)
  have hheader : header ⟨0, nestedText⟩ = .ok ⟨7, 0⟩ ⟨7, nestedText.drop 7⟩ := by rfl
  have hend : token ⟨23, nestedText.drop 23⟩ = .ok (.reserved .endObj) ⟨30, []⟩ := by rfl
  have hdefinition : readDefinition fourLevels ⟨0, nestedText⟩ =
      .ok (⟨7, 0⟩, nestedObject) ⟨30, []⟩ :=
    bind_eq_ok.mpr ⟨_, _, hheader, bind_eq_ok.mpr ⟨_, _, hread, by rw [hend]⟩⟩
  have hdict : readDict noLevels ⟨0, ascii " << >>"⟩ = .ok .empty ⟨6, []⟩ :=
    readDict_written noLevels (List.forall_mem_nil _) [] 0
  have hat : 7 ≤ nestedText.length := by decide
  exact ⟨⟨hread, (nesting_bounded hat).1 _ _ hread⟩,
    ⟨hdefinition, (nesting_bounded (Nat.zero_le _)).2.1 _ _ _ hdefinition⟩,
    hdict, (nesting_bounded (Nat.zero_le _)).2.2 _ _ hdict⟩

end Object

end CrossReference
