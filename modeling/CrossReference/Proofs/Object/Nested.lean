import CrossReference.Proofs.Object.Spelled

set_option autoImplicit false

/-! # Reading objects with gaps between their tokens

The reader takes an object for what it is if no comment splits a reference of it and it may nest
deep enough (`Spelled.accepts`), and otherwise it fails (`Spelled.rejects`). Both are inductions on
how the object is spelled. What the loops of arrays and dictionaries need to know about one item is
that its reader takes it (`Accepts`), or that the loop comes to grief over it (`DerailsItems`,
`DerailsEntries`), whatever ends the item. The reader of a single item may also take a part of it
for the whole: of a reference that is split it takes the number for an integer, and it is the loop
around it that finds the rest out of place. -/

namespace CrossReference

open Bytes (Stops)
open Decimal (digits)

/-- A name without a value gets one at the end. -/
theorem Dict.insertEntry_of_not_mem {α : Type} {n : Name} {entries : List (Name × α)}
    (h : n ∉ entries.map Prod.fst) (value : α) :
    insertEntry n value entries = entries ++ [(n, value)] := by
  induction entries with
  | nil => rfl
  | cons e rest ih =>
    rw [List.map_cons, List.mem_cons, not_or] at h
    rw [insertEntry, if_neg h.1, ih h.2, List.cons_append]

namespace Object

theorem Gaps.of_forall {gaps : List Bytes} (h : ∀ gap ∈ gaps, Gap gap ∧ gap ≠ []) : Gaps gaps :=
  ⟨fun gap hgap => (h gap hgap).1, fun gap hgap => (h gap (List.mem_of_mem_tail hgap)).2⟩

/-- Behind the first gap no gap is empty. -/
theorem Gaps.of_cons {gap : Bytes} {gaps : List Bytes} (h : Gaps (gap :: gaps)) :
    Gap gap ∧ ∀ gap' ∈ gaps, Gap gap' ∧ gap' ≠ [] :=
  ⟨h.isGap gap List.mem_cons_self,
    fun gap' hgap' => ⟨h.isGap gap' (List.mem_cons_of_mem gap hgap'), h.ne_nil gap' hgap'⟩⟩

/-- An item with a printable value and the text of it. -/
structure Item.Written (upper : Bool) (p : Item) : Prop where
  spelled : p.value.Spelled upper p.head p.body p.split
  printable : p.value.Printable

end Object

namespace Reader

open Object (Item NamedItem Gaps)

/-! ## Looking ahead -/

theorem integerOrReference_of_none {value : Int} {c : Cursor} (h : reference? value c = none) :
    integerOrReference value c = .ok (.integer value) c := by
  unfold integerOrReference
  rw [h]

/-- What ends an object does not make a stream of a dictionary. -/
theorem dictOrStream_of_unrelated {rest : Bytes} (h : Unrelated rest) (tolerance : Tolerance)
    (entries : Dict Object) (position : Nat) :
    dictOrStream tolerance entries ⟨position, rest⟩ = .ok (.dict entries) ⟨position, rest⟩ := by
  unfold dictOrStream
  split
  · rename_i c hread
    exact absurd hread (h.stream position c)
  · rfl

variable {key : Key} {gap gap' rest : Bytes}

/-- The generation and the keyword behind an integer make a reference of it. -/
theorem integerOrReference_body (generation_le : key.generation ≤ Decimal.maxWord32)
    (isGap : Gap gap) (isGap' : Gap gap') (ne_nil' : gap' ≠ []) (hplain : 0x25 ∉ gap ++ gap')
    (hstop : Stops Byte.isRegular rest) (position : Nat) :
    integerOrReference key.number
        ⟨position, gap ++ (digits key.generation ++ (gap' ++ (ascii "R" ++ rest)))⟩ =
      .ok (.reference key)
        ⟨position + (gap ++ (digits key.generation ++ (gap' ++ ascii "R"))).length, rest⟩ := by
  rw [List.mem_append, not_or] at hplain
  have hgeneration := token_generation generation_le
    (isGap'.stops ne_nil' (ascii "R" ++ rest)) (position + gap.length)
  rw [← token_white (isGap.isWhite_of_not_mem hplain.1)] at hgeneration
  have hkeyword := token_R hstop
    (position + gap.length + (digits key.generation).length + gap'.length)
  rw [← token_white (isGap'.isWhite_of_not_mem hplain.2)] at hkeyword
  have hplace : position + (gap ++ (digits key.generation ++ (gap' ++ ascii "R"))).length =
      position + gap.length + (digits key.generation).length + gap'.length + 1 := by
    have hone : (ascii "R").length = 1 := rfl
    simp only [List.length_append, hone]
    omega
  unfold integerOrReference reference?
  rw [hgeneration]
  dsimp only
  rw [key?_self generation_le, hkeyword, hplace]
  rfl

/-- A comment behind the number or behind the generation splits a reference: the number stands for
    itself. -/
theorem reference?_split (generation_le : key.generation ≤ Decimal.maxWord32)
    (isGap : Gap gap) (isGap' : Gap gap') (ne_nil' : gap' ≠ []) (hsplit : 0x25 ∈ gap ++ gap')
    (value : Int) (rest : Bytes) (position : Nat) :
    reference? value ⟨position, gap ++ (digits key.generation ++ (gap' ++ rest))⟩ = none := by
  by_cases hcomment : 0x25 ∈ gap
  · exact reference?_gap_comment isGap hcomment value position _
  · have hcomment' := (List.mem_append.mp hsplit).resolve_left hcomment
    have hgeneration := token_generation generation_le (isGap'.stops ne_nil' rest)
      (position + gap.length)
    rw [← token_white (isGap.isWhite_of_not_mem hcomment)] at hgeneration
    refine reference?_eq_none hgeneration fun _ _ c hword => ?_
    obtain ⟨line, c', hline⟩ := token_gap isGap' hcomment'
      (position + gap.length + (digits key.generation).length) rest
    cases hline.symm.trans hword

/-! ## One item -/

variable {upper : Bool} {item : Token → Reader Object} {refuses : Error → Prop}

/-- A reader of items that takes an object, of which this is written behind the first token. -/
def Accepts (item : Token → Reader Object) (x : Object) (body : Bytes) : Prop :=
  ∀ position rest, Ends rest → item x.lead ⟨position, body ++ rest⟩ =
    .ok x ⟨position + body.length, rest⟩

/-- A reader of items that fails on an object, with an error of some kind. -/
def Rejects (refuses : Error → Prop) (item : Token → Reader Object) (x : Object) (body : Bytes) :
    Prop :=
  ∀ position rest, Ends rest → ∃ e c, item x.lead ⟨position, body ++ rest⟩ = .error e c ∧ refuses e

theorem Rejects.mono {refuses' : Error → Prop} {x : Object} {body : Bytes}
    (h : Rejects refuses item x body) (himp : ∀ e, refuses e → refuses' e) :
    Rejects refuses' item x body := by
  intro position rest hends
  obtain ⟨e, c, hread, he⟩ := h position rest hends
  exact ⟨e, c, hread, himp e he⟩

/-- What matters for a reference that is split: the reader of items takes an integer with a look
    ahead, and no keyword. -/
structure Plain (item : Token → Reader Object) : Prop where
  integer : ∀ value, item (.integer value) = integerOrReference value
  keyword : ∀ word c, ∃ e c', item (.keyword word) c = .error e c'

/-! ## Items -/

/-- A round of the reader of items that does not find the end of the array. -/
theorem items_of_token {acc : List Object} {c c' : Cursor} {t : Token}
    (h : significant c = .ok t c') (hclose : t ≠ .arrayClose) (rounds : Nat) :
    items item acc (rounds + 1) c = (item t >>= fun y => items item (y :: acc) rounds) c' := by
  rw [items, bind_of_ok h]
  cases t with
  | arrayClose => exact absurd rfl hclose
  | _ => rfl

theorem items_item {p : Item} (hp : p.Written upper) (hgap : Gap p.gap)
    (hstop : Stops Byte.isRegular rest) (acc : List Object) (rounds position : Nat) :
    items item acc (rounds + 1) ⟨position, p.text ++ rest⟩ =
      (item p.value.lead >>= fun y => items item (y :: acc) rounds)
        ⟨position + p.gap.length + p.head.length, p.body ++ rest⟩ := by
  have hread := hp.spelled.significant hp.printable hgap hstop position
  rw [Item.text, List.append_assoc, List.append_assoc]
  refine items_of_token hread ?_ rounds
  cases p.value <;> exact Token.noConfusion

/-- A round of the reader of items at the end of an array. -/
theorem items_close (item : Token → Reader Object) {pad : Bytes} (hpad : Gap pad) (rest : Bytes)
    (acc : List Object) (rounds position : Nat) :
    items item acc (rounds + 1) ⟨position, pad ++ 0x5D :: rest⟩ =
      .ok acc.reverse ⟨position + pad.length + 1, rest⟩ := by
  have hread := significant_of_token
    (token_of_scan (Token.scan_arrayClose rest) (position + pad.length)) Token.noConfusion
    fun _ => Token.noConfusion
  rw [← significant_gap hpad] at hread
  rw [items, bind_of_ok hread]
  rfl

/-- The items behind another one, up to the end of the array, end it. -/
theorem ends_items {ps : List Item} (hps : ∀ p ∈ ps, p.Written upper)
    (hgaps : ∀ gap ∈ ps.map Item.gap, Gap gap ∧ gap ≠ []) {pad : Bytes} (hpad : Gap pad)
    (rest : Bytes) : Ends (ps.flatMap Item.text ++ (pad ++ 0x5D :: rest)) := by
  induction ps with
  | nil =>
    rw [List.flatMap_nil, List.nil_append]
    exact (ends_arrayClose rest).behind hpad
  | cons p ps ih =>
    obtain ⟨hp, hothers⟩ := List.forall_mem_cons.mp hps
    rw [List.map_cons, List.forall_mem_cons] at hgaps
    rw [List.flatMap_cons, Item.text, List.append_assoc, List.append_assoc, List.append_assoc]
    exact ends_gap hgaps.1.1 hgaps.1.2 (hp.spelled.unrelated hp.printable (ih hothers hgaps.2))

/-- The items of an array are read as they are. -/
theorem items_of_accepts {ps : List Item} (hps : ∀ p ∈ ps, p.Written upper)
    (hgaps : Gaps (ps.map Item.gap)) (haccepts : ∀ p ∈ ps, Accepts item p.value p.body)
    {pad : Bytes} (hpad : Gap pad) (rest : Bytes) (acc : List Object) {rounds : Nat}
    (hrounds : ps.length < rounds) (position : Nat) :
    items item acc rounds ⟨position, ps.flatMap Item.text ++ (pad ++ 0x5D :: rest)⟩ =
      .ok (acc.reverse ++ ps.map Item.value)
        ⟨position + (ps.flatMap Item.text ++ (pad ++ [0x5D])).length, rest⟩ := by
  induction ps generalizing acc rounds position with
  | nil =>
    obtain ⟨left, rfl⟩ : ∃ left, rounds = left + 1 := ⟨rounds - 1, by omega⟩
    rw [List.flatMap_nil, List.nil_append, items_close item hpad]
    simp [Nat.add_assoc]
  | cons p ps ih =>
    rw [List.length_cons] at hrounds
    obtain ⟨left, rfl⟩ : ∃ left, rounds = left + 1 := ⟨rounds - 1, by omega⟩
    obtain ⟨hp, hothers⟩ := List.forall_mem_cons.mp hps
    obtain ⟨haccept, haccepts⟩ := List.forall_mem_cons.mp haccepts
    obtain ⟨hgap, hgaps⟩ := hgaps.of_cons
    have hends := ends_items hothers hgaps hpad rest
    rw [List.flatMap_cons, List.append_assoc, items_item hp hgap hends.stops,
      bind_of_ok (haccept _ _ hends),
      ih hothers (.of_forall hgaps) haccepts (p.value :: acc) (by omega)]
    simp only [Item.text, List.reverse_cons, List.map_cons, List.append_assoc, List.length_append,
      List.singleton_append, Nat.add_assoc]

/-- A loop that fails over an item. -/
def DerailsItems (refuses : Error → Prop) (item : Token → Reader Object) (p : Item) : Prop :=
  ∀ acc rounds position rest, Ends rest →
    ∃ e c, items item acc (rounds + 1) ⟨position, p.text ++ rest⟩ = .error e c ∧ refuses e

/-- An array is not read if the loop fails over one of its items. -/
theorem items_of_derails {ps : List Item} (hps : ∀ p ∈ ps, p.Written upper)
    (hgaps : Gaps (ps.map Item.gap))
    (hall : ∀ p ∈ ps, Accepts item p.value p.body ∨ DerailsItems refuses item p)
    (hsome : ∃ p ∈ ps, DerailsItems refuses item p) {pad : Bytes} (hpad : Gap pad) (rest : Bytes)
    (acc : List Object) {rounds : Nat} (hrounds : ps.length < rounds) (position : Nat) :
    ∃ e c, items item acc rounds ⟨position, ps.flatMap Item.text ++ (pad ++ 0x5D :: rest)⟩ =
      .error e c ∧ refuses e := by
  induction ps generalizing acc rounds position with
  | nil =>
    obtain ⟨p, hp, _⟩ := hsome
    exact absurd hp List.not_mem_nil
  | cons p ps ih =>
    rw [List.length_cons] at hrounds
    obtain ⟨left, rfl⟩ : ∃ left, rounds = left + 1 := ⟨rounds - 1, by omega⟩
    obtain ⟨hp, hothers⟩ := List.forall_mem_cons.mp hps
    obtain ⟨haccept, hall⟩ := List.forall_mem_cons.mp hall
    obtain ⟨hgap, hgaps⟩ := hgaps.of_cons
    have hends := ends_items hothers hgaps hpad rest
    rw [List.flatMap_cons, List.append_assoc]
    by_cases hderails : DerailsItems refuses item p
    · exact hderails acc left position _ hends
    · have hsome' : ∃ q ∈ ps, DerailsItems refuses item q := by simpa [hderails] using hsome
      rw [items_item hp hgap hends.stops,
        bind_of_ok (haccept.resolve_right hderails _ _ hends)]
      exact ih hothers (.of_forall hgaps) hall hsome' (p.value :: acc) (by omega) _

/-- A loop fails over an item on which its reader fails. -/
theorem Rejects.derailsItems {p : Item} (hp : p.Written upper) (hgap : Gap p.gap)
    (h : Rejects refuses item p.value p.body) : DerailsItems refuses item p := by
  intro acc rounds position rest hends
  obtain ⟨e, c, hread, he⟩ := h (position + p.gap.length + p.head.length) rest hends
  rw [items_item hp hgap hends.stops]
  exact ⟨e, c, bind_of_error hread, he⟩

/-- A reference that is split makes three items out of one, and the third of them is none. -/
theorem derailsItems_of_split (hitem : Plain item) {p : Item} (hp : p.Written upper)
    (hgap : Gap p.gap) (hreference : ∃ key, p.value = .reference key) (hsplit : p.split = true)
    (hany : ∀ e, refuses e) : DerailsItems refuses item p := by
  intro acc rounds position rest hends
  obtain ⟨key, hkey⟩ := hreference
  obtain ⟨before, x, head, body, split⟩ := p
  subst hkey
  obtain ⟨spelled, printable⟩ := hp
  rw [items_item ⟨spelled, printable⟩ hgap hends.stops]
  obtain ⟨gap, gap', isGap, isGap', _, ne_nil', rfl, rfl, rfl⟩ := spelled.reference_eq
  obtain ⟨_, generation_le⟩ := printable.reference_le
  have hcomment : 0x25 ∈ gap ++ gap' := of_decide_eq_true hsplit
  -- the number, the generation and the keyword, each as an item of its own
  have hnumber := reference?_split generation_le isGap isGap' ne_nil' hcomment key.number
    (ascii "R" ++ rest)
  have hgeneration := significant_generation generation_le isGap
    (isGap'.stops ne_nil' (ascii "R" ++ rest))
  simp only [List.append_assoc]
  rw [Object.lead, hitem.integer, bind_of_ok (integerOrReference_of_none (hnumber _))]
  cases rounds with
  | zero => exact ⟨_, _, rfl, hany _⟩
  | succ rounds =>
    rw [items_of_token (hgeneration _) Token.noConfusion, hitem.integer,
      bind_of_ok (integerOrReference_of_none (reference?_gap_R isGap' hends.stops _ _))]
    cases rounds with
    | zero => exact ⟨_, _, rfl, hany _⟩
    | succ rounds =>
      rw [items_of_token (significant_R isGap' hends.stops _) Token.noConfusion]
      obtain ⟨e, c, hread⟩ := hitem.keyword (ascii "R") _
      exact ⟨e, c, bind_of_error hread, hany e⟩

/-! ## Entries -/

/-- A round of the reader of entries that finds a name and a value. -/
theorem entries_of_tokens {acc : Dict Object} {c c₁ c₂ : Cursor} {n : Name} {t : Token}
    (h : significant c = .ok (.name n) c₁) (h' : significant c₁ = .ok t c₂) (rounds : Nat) :
    entries item acc (rounds + 1) c =
      (item t >>= fun y => entries item (acc.insert n y) rounds) c₂ := by
  rw [entries, bind_of_ok h]
  exact bind_of_ok h'

theorem entries_entry {p : NamedItem} (hp : p.toItem.Written upper) (hbefore : Gap p.before)
    (hgap : Gap p.gap ∧ p.gap ≠ []) (hstop : Stops Byte.isRegular rest) (acc : Dict Object)
    (rounds position : Nat) :
    entries item acc (rounds + 1) ⟨position, p.text upper ++ rest⟩ =
      (item p.value.lead >>= fun y => entries item (acc.insert p.name y) rounds)
        ⟨position + p.before.length + (Token.printName upper p.name).length + p.gap.length +
          p.head.length, p.body ++ rest⟩ := by
  have hname := token_of_scan
    (Token.scan_printName upper p.name (hgap.1.stops hgap.2 (p.head ++ (p.body ++ rest))))
    (position + p.before.length)
  have hread := significant_of_token hname Token.noConfusion fun _ => Token.noConfusion
  rw [← significant_gap hbefore, List.drop_left] at hread
  have hvalue := hp.spelled.significant hp.printable hgap.1 hstop
    (position + p.before.length + (Token.printName upper p.name).length)
  simp only [NamedItem.text, Item.text, List.append_assoc]
  exact entries_of_tokens hread hvalue rounds

/-- A round of the reader of entries at the end of a dictionary. -/
theorem entries_close (item : Token → Reader Object) {pad : Bytes} (hpad : Gap pad) (rest : Bytes)
    (acc : Dict Object) (rounds position : Nat) :
    entries item acc (rounds + 1) ⟨position, pad ++ 0x3E :: 0x3E :: rest⟩ =
      .ok acc ⟨position + pad.length + 2, rest⟩ := by
  have hread := significant_of_token
    (token_of_scan (Token.scan_dictClose rest) (position + pad.length)) Token.noConfusion
    fun _ => Token.noConfusion
  rw [← significant_gap hpad] at hread
  rw [entries, bind_of_ok hread]
  rfl

/-- The entries behind another one, up to the end of the dictionary, end its value. -/
theorem ends_entries (upper : Bool) {ps : List NamedItem}
    (hgaps : ∀ gap ∈ ps.map NamedItem.before, Gap gap ∧ gap ≠ [])
    (hvalues : ∀ p ∈ ps, Gap p.gap ∧ p.gap ≠ []) {pad : Bytes} (hpad : Gap pad) (rest : Bytes) :
    Ends (ps.flatMap (NamedItem.text upper) ++ (pad ++ 0x3E :: 0x3E :: rest)) := by
  cases ps with
  | nil =>
    rw [List.flatMap_nil, List.nil_append]
    exact (ends_dictClose rest).behind hpad
  | cons p ps =>
    rw [List.map_cons, List.forall_mem_cons] at hgaps
    obtain ⟨hvalue, hne⟩ := (List.forall_mem_cons.mp hvalues).1
    simp only [List.flatMap_cons, NamedItem.text, Item.text, List.append_assoc]
    exact (ends_name upper p.name (hvalue.stops hne _)).behind hgaps.1.1

/-- The entries of a dictionary are read as they are, if no name has a value already. -/
theorem entries_of_accepts {ps : List NamedItem} (hps : ∀ p ∈ ps, p.toItem.Written upper)
    (hgaps : Gaps (ps.map NamedItem.before)) (hvalues : ∀ p ∈ ps, Gap p.gap ∧ p.gap ≠ [])
    (haccepts : ∀ p ∈ ps, Accepts item p.value p.body) {pad : Bytes} (hpad : Gap pad)
    (rest : Bytes) (acc : List (Name × Object))
    (hdistinct : ((acc ++ ps.map NamedItem.entry).map Prod.fst).Nodup) {rounds : Nat}
    (hrounds : ps.length < rounds) (position : Nat) :
    entries item ⟨acc⟩ rounds
        ⟨position, ps.flatMap (NamedItem.text upper) ++ (pad ++ 0x3E :: 0x3E :: rest)⟩ =
      .ok ⟨acc ++ ps.map NamedItem.entry⟩
        ⟨position + (ps.flatMap (NamedItem.text upper) ++ (pad ++ [0x3E, 0x3E])).length, rest⟩ := by
  induction ps generalizing acc rounds position with
  | nil =>
    obtain ⟨left, rfl⟩ : ∃ left, rounds = left + 1 := ⟨rounds - 1, by omega⟩
    rw [List.flatMap_nil, List.nil_append, entries_close item hpad]
    simp [Nat.add_assoc]
  | cons p ps ih =>
    rw [List.length_cons] at hrounds
    obtain ⟨left, rfl⟩ : ∃ left, rounds = left + 1 := ⟨rounds - 1, by omega⟩
    obtain ⟨hp, hothers⟩ := List.forall_mem_cons.mp hps
    obtain ⟨hvalue, hvalues⟩ := List.forall_mem_cons.mp hvalues
    obtain ⟨haccept, haccepts⟩ := List.forall_mem_cons.mp haccepts
    obtain ⟨hbefore, hgaps⟩ := hgaps.of_cons
    have hends := ends_entries upper hgaps hvalues hpad rest
    have hnew : p.name ∉ acc.map Prod.fst := by
      rw [List.map_append, List.map_cons] at hdistinct
      exact fun he => (List.nodup_append.mp hdistinct).2.2 p.name he p.name List.mem_cons_self rfl
    have hinsert : Dict.insert ⟨acc⟩ p.name p.value = ⟨acc ++ [p.entry]⟩ := by
      rw [Dict.insert, Dict.insertEntry_of_not_mem hnew]
      rfl
    rw [List.map_cons, List.append_cons] at hdistinct
    rw [List.flatMap_cons, List.append_assoc, entries_entry hp hbefore hvalue hends.stops,
      bind_of_ok (haccept _ _ hends), hinsert,
      ih hothers (.of_forall hgaps) hvalues haccepts _ hdistinct (by omega)]
    simp only [NamedItem.text, Item.text, List.map_cons, List.append_assoc, List.length_append,
      List.singleton_append, Nat.add_assoc]

/-- A loop that fails over an entry. -/
def DerailsEntries (refuses : Error → Prop) (item : Token → Reader Object) (upper : Bool)
    (p : NamedItem) : Prop :=
  ∀ acc rounds position rest, Ends rest →
    ∃ e c, entries item acc (rounds + 1) ⟨position, p.text upper ++ rest⟩ = .error e c ∧ refuses e

/-- A dictionary is not read if the loop fails over one of its entries. -/
theorem entries_of_derails {ps : List NamedItem} (hps : ∀ p ∈ ps, p.toItem.Written upper)
    (hgaps : Gaps (ps.map NamedItem.before)) (hvalues : ∀ p ∈ ps, Gap p.gap ∧ p.gap ≠ [])
    (hall : ∀ p ∈ ps, Accepts item p.value p.body ∨ DerailsEntries refuses item upper p)
    (hsome : ∃ p ∈ ps, DerailsEntries refuses item upper p) {pad : Bytes} (hpad : Gap pad)
    (rest : Bytes) (acc : Dict Object) {rounds : Nat} (hrounds : ps.length < rounds)
    (position : Nat) :
    ∃ e c, entries item acc rounds
        ⟨position, ps.flatMap (NamedItem.text upper) ++ (pad ++ 0x3E :: 0x3E :: rest)⟩ =
      .error e c ∧ refuses e := by
  induction ps generalizing acc rounds position with
  | nil =>
    obtain ⟨p, hp, _⟩ := hsome
    exact absurd hp List.not_mem_nil
  | cons p ps ih =>
    rw [List.length_cons] at hrounds
    obtain ⟨left, rfl⟩ : ∃ left, rounds = left + 1 := ⟨rounds - 1, by omega⟩
    obtain ⟨hp, hothers⟩ := List.forall_mem_cons.mp hps
    obtain ⟨hvalue, hvalues⟩ := List.forall_mem_cons.mp hvalues
    obtain ⟨haccept, hall⟩ := List.forall_mem_cons.mp hall
    obtain ⟨hbefore, hgaps⟩ := hgaps.of_cons
    have hends := ends_entries upper hgaps hvalues hpad rest
    rw [List.flatMap_cons, List.append_assoc]
    by_cases hderails : DerailsEntries refuses item upper p
    · exact hderails acc left position _ hends
    · have hsome' : ∃ q ∈ ps, DerailsEntries refuses item upper q := by
        simpa [hderails] using hsome
      rw [entries_entry hp hbefore hvalue hends.stops,
        bind_of_ok (haccept.resolve_right hderails _ _ hends)]
      exact ih hothers (.of_forall hgaps) hvalues hall hsome' _ (by omega) _

theorem Rejects.derailsEntries {p : NamedItem} (hp : p.toItem.Written upper)
    (hbefore : Gap p.before) (hgap : Gap p.gap ∧ p.gap ≠ [])
    (h : Rejects refuses item p.value p.body) : DerailsEntries refuses item upper p := by
  intro acc rounds position rest hends
  obtain ⟨e, c, hread, he⟩ := h (position + p.before.length +
    (Token.printName upper p.name).length + p.gap.length + p.head.length) rest hends
  rw [entries_entry hp hbefore hgap hends.stops]
  exact ⟨e, c, bind_of_error hread, he⟩

/-- A reference that is split leaves an integer where a name has to stand. -/
theorem derailsEntries_of_split (hitem : Plain item) {p : NamedItem} (hp : p.toItem.Written upper)
    (hbefore : Gap p.before) (hgap : Gap p.gap ∧ p.gap ≠ [])
    (hreference : ∃ key, p.value = .reference key) (hsplit : p.split = true)
    (hany : ∀ e, refuses e) : DerailsEntries refuses item upper p := by
  intro acc rounds position rest hends
  obtain ⟨key, hkey⟩ := hreference
  obtain ⟨⟨front, x, head, body, split⟩, before, n⟩ := p
  subst hkey
  obtain ⟨spelled, printable⟩ := hp
  rw [entries_entry ⟨spelled, printable⟩ hbefore hgap hends.stops]
  obtain ⟨gap, gap', isGap, isGap', _, ne_nil', rfl, rfl, rfl⟩ := spelled.reference_eq
  obtain ⟨_, generation_le⟩ := printable.reference_le
  have hcomment : 0x25 ∈ gap ++ gap' := of_decide_eq_true hsplit
  have hnumber := reference?_split generation_le isGap isGap' ne_nil' hcomment key.number
    (ascii "R" ++ rest)
  have hgeneration := significant_generation generation_le isGap
    (isGap'.stops ne_nil' (ascii "R" ++ rest))
  simp only [List.append_assoc]
  rw [Object.lead, hitem.integer, bind_of_ok (integerOrReference_of_none (hnumber _))]
  cases rounds with
  | zero => exact ⟨_, _, rfl, hany _⟩
  | succ rounds =>
    rw [entries, bind_of_ok (hgeneration _)]
    exact ⟨_, _, rfl, hany _⟩

end Reader

/-! ## Objects -/

namespace Object

open Reader

variable {upper split : Bool} {tolerance : Tolerance} {x : Object} {head body : Bytes}

theorem plain_ofToken (tolerance : Tolerance) (nesting : Nat) :
    Plain (ofToken tolerance nesting) := by
  refine ⟨fun value => ?_, fun word c => ?_⟩
  · cases nesting <;> rfl
  · cases nesting <;> exact ⟨_, _, rfl⟩

theorem Spelled.head_ne_nil (h : Spelled upper x head body split) : head ≠ [] := by
  cases h with
  | bool value => cases value <;> exact List.cons_ne_nil _ _
  | integer value => exact Token.printInteger_ne_nil value
  | reference => exact Decimal.digits_ne_nil _
  | _ => exact List.cons_ne_nil _ _

/-- There are more rounds than items, since each item takes a byte and the bracket another one. -/
theorem length_lt_items {items : List Item} (h : ∀ p ∈ items, p.Written upper) (pad rest : Bytes) :
    items.length < (items.flatMap Item.text ++ (pad ++ 0x5D :: rest)).length := by
  have hle : items.length ≤ (items.flatMap Item.text).length :=
    Bytes.length_le_flatMap_of_mem fun p hp =>
      List.append_ne_nil_of_right_ne_nil _
        (List.append_ne_nil_of_left_ne_nil (h p hp).spelled.head_ne_nil _)
  simp only [List.length_append, List.length_cons]
  omega

theorem length_lt_entries (upper : Bool) (entries : List NamedItem) (pad rest : Bytes) :
    entries.length <
      (entries.flatMap (NamedItem.text upper) ++ (pad ++ 0x3E :: 0x3E :: rest)).length := by
  have hle : entries.length ≤ (entries.flatMap (NamedItem.text upper)).length :=
    Bytes.length_le_flatMap
      (fun p => List.append_ne_nil_of_right_ne_nil _ (List.cons_ne_nil _ _)) entries
  simp only [List.length_append, List.length_cons]
  omega

theorem array_text (items : List Item) (pad rest : Bytes) :
    items.flatMap Item.text ++ (pad ++ [0x5D]) ++ rest =
      items.flatMap Item.text ++ (pad ++ 0x5D :: rest) := by
  simp

theorem dict_text (upper : Bool) (entries : List NamedItem) (pad rest : Bytes) :
    entries.flatMap (NamedItem.text upper) ++ (pad ++ [0x3E, 0x3E]) ++ rest =
      entries.flatMap (NamedItem.text upper) ++ (pad ++ 0x3E :: 0x3E :: rest) := by
  simp

/-- The items of an array are read in as many rounds as there are bytes. -/
theorem rounds_items {item : Token → Reader Object} {ps : List Item} {pad : Bytes}
    (hps : ∀ p ∈ ps, p.Written upper) (hgaps : Gaps (ps.map Item.gap))
    (haccepts : ∀ p ∈ ps, Accepts item p.value p.body) (hpad : Gap pad) (position : Nat)
    (rest : Bytes) :
    rounds (Reader.items item []) ⟨position, ps.flatMap Item.text ++ (pad ++ [0x5D]) ++ rest⟩ =
      .ok (ps.map Item.value)
        ⟨position + (ps.flatMap Item.text ++ (pad ++ [0x5D])).length, rest⟩ := by
  rw [array_text]
  exact items_of_accepts hps hgaps haccepts hpad rest [] (length_lt_items hps pad rest) position

/-- The entries of a dictionary are read in as many rounds as there are bytes. -/
theorem rounds_entries {item : Token → Reader Object} {ps : List NamedItem} {pad : Bytes}
    (hps : ∀ p ∈ ps, p.toItem.Written upper) (hgaps : Gaps (ps.map NamedItem.before))
    (hvalues : ∀ p ∈ ps, Gap p.gap ∧ p.gap ≠ [])
    (haccepts : ∀ p ∈ ps, Accepts item p.value p.body)
    (distinct : ((ps.map NamedItem.entry).map Prod.fst).Nodup) (hpad : Gap pad) (position : Nat)
    (rest : Bytes) :
    rounds (Reader.entries item .empty)
        ⟨position, ps.flatMap (NamedItem.text upper) ++ (pad ++ [0x3E, 0x3E]) ++ rest⟩ =
      .ok ⟨ps.map NamedItem.entry⟩
        ⟨position + (ps.flatMap (NamedItem.text upper) ++ (pad ++ [0x3E, 0x3E])).length, rest⟩ := by
  rw [dict_text]
  exact entries_of_accepts hps hgaps hvalues haccepts hpad rest [] distinct
    (length_lt_entries upper ps pad rest) position

theorem Printable.of_array {items : List Item} (h : Printable (.array (items.map Item.value))) :
    ∀ p ∈ items, p.value.Printable := by
  cases h with
  | array printable => exact List.forall_mem_map.mp printable

theorem Printable.of_dict {entries : List NamedItem}
    (h : Printable (.dict ⟨entries.map NamedItem.entry⟩)) :
    ((entries.map NamedItem.entry).map Prod.fst).Nodup ∧ ∀ p ∈ entries, p.value.Printable := by
  cases h with
  | dict distinct printable =>
    exact ⟨distinct, fun p hp => printable p.entry (List.mem_map_of_mem hp)⟩

/-- The reader of an object takes it as it is spelled, if no comment splits a reference and it may
    nest as deep as the object is. -/
theorem Spelled.accepts (h : Spelled upper x head body split) (hx : Printable x)
    (hplain : split = false) {nesting : Nat} (hdepth : x.depth ≤ nesting) :
    Accepts (ofToken tolerance nesting) x body := by
  induction h generalizing nesting with
  | null | bool | string | name =>
    intro position rest _
    cases nesting <;> rfl
  | integer value =>
    intro position rest hends
    rw [lead, (plain_ofToken tolerance nesting).integer]
    exact integerOrReference_of_none (hends.reference position value)
  | reference key isGap isGap' _ ne_nil' =>
    intro position rest hends
    rw [lead, (plain_ofToken tolerance nesting).integer]
    simp only [List.append_assoc]
    exact integerOrReference_body hx.reference_le.2 isGap isGap' ne_nil' (of_decide_eq_false hplain)
      hends.stops position
  | @array items pad spelled gaps isGap ih =>
    rw [depth] at hdepth
    obtain ⟨left, rfl⟩ : ∃ left, nesting = left + 1 := ⟨nesting - 1, by omega⟩
    have hvalues := List.forall_mem_map.mp (depthItems_le.mp (Nat.le_of_succ_le_succ hdepth))
    have hsplit := List.any_eq_false.mp hplain
    have hps : ∀ p ∈ items, p.Written upper := fun p hp => ⟨spelled p hp, hx.of_array p hp⟩
    have haccepts : ∀ p ∈ items, Accepts (ofToken tolerance left) p.value p.body := fun p hp =>
      ih p hp (hx.of_array p hp) (eq_false_of_ne_true (hsplit p hp)) (hvalues p hp)
    intro position rest _
    exact bind_of_ok (rounds_items hps gaps haccepts isGap position rest)
  | @dict entries pad spelled gaps isGap values ih =>
    rw [depth] at hdepth
    obtain ⟨left, rfl⟩ : ∃ left, nesting = left + 1 := ⟨nesting - 1, by omega⟩
    have hvalues := List.forall_mem_map.mp (depthEntries_le.mp (Nat.le_of_succ_le_succ hdepth))
    have hsplit := List.any_eq_false.mp hplain
    obtain ⟨distinct, printable⟩ := hx.of_dict
    have hps : ∀ p ∈ entries, p.toItem.Written upper := fun p hp => ⟨spelled p hp, printable p hp⟩
    have haccepts : ∀ p ∈ entries, Accepts (ofToken tolerance left) p.value p.body := fun p hp =>
      ih p hp (printable p hp) (eq_false_of_ne_true (hsplit p hp)) (hvalues p hp)
    intro position rest hends
    rw [← dictOrStream_of_unrelated hends.toUnrelated]
    exact bind_of_ok (rounds_entries hps gaps values haccepts distinct isGap position rest)

/-- The errors for too deep a nesting, or any errors if a comment splits a reference. -/
def NestingUnless (tolerance : Tolerance) (split : Bool) (e : Error) : Prop :=
  split = false → ∃ place, e = .malformed place (.nesting tolerance.maxNesting)

/-- The reader cannot take an item for its value: the value is too deep for what nesting is left,
    or a comment splits a reference of it. -/
def Item.Faulty (nesting : Nat) (p : Item) : Prop := nesting < p.value.depth ∨ p.split = true

theorem Item.Written.accepts {p : Item} (hp : p.Written upper) {nesting : Nat}
    (hgood : ¬p.Faulty nesting) : Accepts (ofToken tolerance nesting) p.value p.body :=
  hp.spelled.accepts hp.printable (eq_false_of_ne_true fun hsplit => hgood (Or.inr hsplit))
    (Nat.le_of_not_lt fun hdeep => hgood (Or.inl hdeep))

theorem exists_faulty {α : Type} {item : α → Item} {ps : List α} {nesting : Nat}
    (h : (∃ p ∈ ps, nesting < (item p).value.depth) ∨ (ps.any fun p => (item p).split) = true) :
    ∃ p ∈ ps, (item p).Faulty nesting := by
  rcases h with ⟨p, hp, hdeep⟩ | hsplit
  · exact ⟨p, hp, Or.inl hdeep⟩
  · obtain ⟨p, hp, hsplit⟩ := List.any_eq_true.mp hsplit
    exact ⟨p, hp, Or.inr hsplit⟩

section Faulty

variable {p : Item} {nesting : Nat} {around : Bool}

/-- A faulty item is a reference that is split, or its reader fails on it. If it is split, so are
    some of the items around it. -/
theorem Item.Faulty.split_or_rejects (h : p.Faulty nesting)
    (haround : around = false → p.split = false)
    (hitem : nesting < p.value.depth ∨ p.split = true ∧ (∀ key, p.value ≠ .reference key) →
      Rejects (NestingUnless tolerance p.split) (ofToken tolerance nesting) p.value p.body) :
    ((∃ key, p.value = .reference key) ∧ p.split = true ∧ ∀ e, NestingUnless tolerance around e) ∨
      Rejects (NestingUnless tolerance around) (ofToken tolerance nesting) p.value p.body := by
  by_cases hreference : p.split = true ∧ ∃ key, p.value = .reference key
  · obtain ⟨hsplit, hreference⟩ := hreference
    exact Or.inl ⟨hreference, hsplit, fun e hnone =>
      absurd (haround hnone) (ne_false_of_eq_true hsplit)⟩
  · have hrejects := hitem (h.imp_right fun hsplit =>
      ⟨hsplit, fun key hkey => hreference ⟨hsplit, key, hkey⟩⟩)
    exact Or.inr (hrejects.mono fun e he hnone => he (haround hnone))

theorem Item.Faulty.derailsItems (h : p.Faulty nesting) (haround : around = false → p.split = false)
    (hitem : nesting < p.value.depth ∨ p.split = true ∧ (∀ key, p.value ≠ .reference key) →
      Rejects (NestingUnless tolerance p.split) (ofToken tolerance nesting) p.value p.body)
    (hp : p.Written upper) (hgap : Gap p.gap) :
    DerailsItems (NestingUnless tolerance around) (ofToken tolerance nesting) p := by
  rcases h.split_or_rejects haround hitem with ⟨hreference, hsplit, hany⟩ | hrejects
  · exact derailsItems_of_split (plain_ofToken _ _) hp hgap hreference hsplit hany
  · exact hrejects.derailsItems hp hgap

theorem Item.Faulty.derailsEntries {p : NamedItem} (h : p.toItem.Faulty nesting)
    (haround : around = false → p.split = false)
    (hitem : nesting < p.value.depth ∨ p.split = true ∧ (∀ key, p.value ≠ .reference key) →
      Rejects (NestingUnless tolerance p.split) (ofToken tolerance nesting) p.value p.body)
    (hp : p.toItem.Written upper) (hbefore : Gap p.before) (hgap : Gap p.gap ∧ p.gap ≠ []) :
    DerailsEntries (NestingUnless tolerance around) (ofToken tolerance nesting) upper p := by
  rcases h.split_or_rejects haround hitem with ⟨hreference, hsplit, hany⟩ | hrejects
  · exact derailsEntries_of_split (plain_ofToken _ _) hp hbefore hgap hreference hsplit hany
  · exact hrejects.derailsEntries hp hbefore hgap

end Faulty

/-- The reader of an object fails if it may not nest as deep as the object is, for that reason, or
    if a comment splits a reference inside the object. -/
theorem Spelled.rejects (h : Spelled upper x head body split) (hx : Printable x) {nesting : Nat}
    (hbad : nesting < x.depth ∨ split = true ∧ ∀ key, x ≠ .reference key) :
    Rejects (NestingUnless tolerance split) (ofToken tolerance nesting) x body := by
  induction h generalizing nesting with
  | @array items pad spelled gaps isGap ih =>
    intro position rest _
    cases nesting with
    | zero => exact ⟨_, _, rfl, fun _ => ⟨_, rfl⟩⟩
    | succ left =>
      rw [depth, Nat.add_lt_add_iff_right, lt_depthItems] at hbad
      have hps : ∀ p ∈ items, p.Written upper := fun p hp => ⟨spelled p hp, hx.of_array p hp⟩
      have hderails : ∀ p ∈ items, p.Faulty left → DerailsItems
          (NestingUnless tolerance (items.any Item.split)) (ofToken tolerance left) p :=
        fun p hp hfaulty => hfaulty.derailsItems
          (fun hnone => eq_false_of_ne_true (List.any_eq_false.mp hnone p hp))
          (ih p hp (hx.of_array p hp)) (hps p hp) (List.forall_mem_map.mp gaps.isGap p hp)
      have hall : ∀ p ∈ items, Accepts (ofToken tolerance left) p.value p.body ∨ _ := fun p hp =>
        (Classical.em (p.Faulty left)).symm.imp (hps p hp).accepts (hderails p hp)
      obtain ⟨p, hp, hfaulty⟩ : ∃ p ∈ items, p.Faulty left := by
        refine exists_faulty (hbad.imp ?_ And.left)
        rintro ⟨_, hvalue, hdeep⟩
        obtain ⟨p, hp, rfl⟩ := List.mem_map.mp hvalue
        exact ⟨p, hp, hdeep⟩
      obtain ⟨e, c, hread, he⟩ := items_of_derails hps gaps hall ⟨p, hp, hderails p hp hfaulty⟩
        isGap rest [] (length_lt_items hps pad rest) position
      rw [array_text]
      exact ⟨e, c, bind_of_error hread, he⟩
  | @dict entries pad spelled gaps isGap values ih =>
    intro position rest _
    cases nesting with
    | zero => exact ⟨_, _, rfl, fun _ => ⟨_, rfl⟩⟩
    | succ left =>
      rw [depth, Nat.add_lt_add_iff_right, lt_depthEntries] at hbad
      obtain ⟨_, printable⟩ := hx.of_dict
      have hps : ∀ p ∈ entries, p.toItem.Written upper := fun p hp =>
        ⟨spelled p hp, printable p hp⟩
      have hderails : ∀ p ∈ entries, p.toItem.Faulty left → DerailsEntries
          (NestingUnless tolerance (entries.any fun p => p.split)) (ofToken tolerance left) upper
          p :=
        fun p hp hfaulty => hfaulty.derailsEntries
          (fun hnone => eq_false_of_ne_true (List.any_eq_false.mp hnone p hp))
          (ih p hp (printable p hp)) (hps p hp) (List.forall_mem_map.mp gaps.isGap p hp)
          (values p hp)
      have hall : ∀ p ∈ entries, Accepts (ofToken tolerance left) p.value p.body ∨ _ := fun p hp =>
        (Classical.em (p.toItem.Faulty left)).symm.imp (hps p hp).accepts (hderails p hp)
      obtain ⟨p, hp, hfaulty⟩ : ∃ p ∈ entries, p.toItem.Faulty left := by
        refine exists_faulty (hbad.imp ?_ And.left)
        rintro ⟨_, hvalue, hdeep⟩
        obtain ⟨p, hp, rfl⟩ := List.mem_map.mp hvalue
        exact ⟨p, hp, hdeep⟩
      obtain ⟨e, c, hread, he⟩ := entries_of_derails hps gaps values hall
        ⟨p, hp, hderails p hp hfaulty⟩ isGap rest .empty (length_lt_entries upper entries pad rest)
        position
      rw [dict_text]
      exact ⟨e, c, bind_of_error hread, he⟩
  | reference key =>
    rcases hbad with hdeep | ⟨_, hnot⟩
    · exact absurd hdeep (Nat.not_lt_zero _)
    · exact absurd rfl (hnot key)
  | _ =>
    rcases hbad with hdeep | ⟨hsplit, _⟩
    · exact absurd hdeep (Nat.not_lt_zero _)
    · cases hsplit

end Object

end CrossReference
