import CrossReference.Proofs.Bytes.Ahead
import CrossReference.Proofs.Object.RoundTrip

set_option autoImplicit false

/-! # Streams that are written out

A stream is a dictionary, the keyword `stream` with the end of its line, the data, a line feed and
the keyword `endstream`. With the length in the dictionary the data is taken as it is, whatever it
holds. Without it a lenient reader searches for `endstream`: it finds the right one if the data does
not hold the word and the search goes far enough, and the line feed in front is the only byte that
it drops if the data does not end in a carriage return (`read_stream`). -/

namespace CrossReference

open Bytes (Stops)

namespace Object

open Reader

variable {tolerance : Tolerance} {entries : Dict Object} {front gap eol tail : Bytes}

/-! ## The dictionary -/

/-- A text that the reader of dictionaries takes for a dictionary, wherever it stands and whatever
    follows it. -/
def DictText (tolerance : Tolerance) (front : Bytes) (entries : Dict Object) : Prop :=
  ∀ position rest, readDict tolerance ⟨position, front ++ rest⟩ =
    .ok entries ⟨position + front.length, rest⟩

/-- Every spelling of a dictionary that the reader of objects takes is one. -/
theorem Spelled.dictText {upper split : Bool} {head body : Bytes}
    (h : Spelled upper (Object.dict entries) head body split) (hx : Printable (.dict entries))
    (hplain : split = false) (hdepth : (Object.dict entries).depth ≤ tolerance.maxNesting) :
    DictText tolerance (head ++ body) entries := by
  intro position rest
  cases h with
  | @dict ps pad spelled gaps isGap values =>
    obtain ⟨distinct, printable⟩ := hx.of_dict
    have hsplit := List.any_eq_false.mp hplain
    rw [depth] at hdepth
    have hdepths := List.forall_mem_map.mp (depthEntries_le.mp (Nat.le_sub_one_of_lt hdepth))
    have haccepts : ∀ p ∈ ps,
        Accepts (ofToken tolerance (tolerance.maxNesting - 1)) p.value p.body := fun p hp =>
      (spelled p hp).accepts (printable p hp) (eq_false_of_ne_true (hsplit p hp)) (hdepths p hp)
    have hopen := significant_of_token (token_of_scan (Token.scan_dictOpen
      (ps.flatMap (NamedItem.text upper) ++ (pad ++ [0x3E, 0x3E]) ++ rest)) position)
      Token.noConfusion fun _ => Token.noConfusion
    have hread := rounds_entries (fun p hp => ⟨spelled p hp, printable p hp⟩) gaps values haccepts
      distinct isGap (position + 2) rest
    rw [List.length_append, ← Nat.add_assoc]
    exact (bind_of_ok hopen).trans hread

/-- An object that begins with a dictionary is this dictionary, or a stream with it. -/
theorem read_of_readDict (hnesting : 0 < tolerance.maxNesting) {c c' : Cursor}
    (h : readDict tolerance c = .ok entries c') :
    read tolerance c = dictOrStream tolerance entries c' := by
  obtain ⟨t, c₁, hread, h⟩ := bind_eq_ok.mp h
  obtain ⟨left, hleft⟩ : ∃ left, tolerance.maxNesting = left + 1 :=
    ⟨tolerance.maxNesting - 1, by omega⟩
  cases t with
  | dictOpen =>
    rw [hleft] at h
    unfold read
    rw [bind_of_ok hread, hleft]
    exact bind_of_ok h
  | _ => cases h

/-! ## The data -/

/-- The ends of line that are regular behind the keyword `stream`. -/
def IsLineBreak (eol : Bytes) : Prop := eol = [0x0A] ∨ eol = [0x0D, 0x0A]

theorem lineEndLength_lineBreak (h : IsLineBreak eol) (rest : Bytes) :
    Bytes.lineEndLength (eol ++ rest) = eol.length := by
  rcases h with rfl | rfl <;> rfl

theorem stops_lineBreak (h : IsLineBreak eol) (rest : Bytes) :
    Stops Byte.isRegular (eol ++ rest) := by
  rcases h with rfl | rfl <;> exact Bytes.stops_cons.mpr (by decide)

/-- Stream data with what ends it. -/
def dataText (payload : Bytes) : Bytes := payload ++ 0x0A :: Reserved.endStream.spelling

theorem dataText_append (payload tail : Bytes) :
    dataText payload ++ tail = payload ++ 0x0A :: (Reserved.endStream.spelling ++ tail) := by
  rw [dataText, List.append_assoc, List.cons_append]

theorem length_dataText (payload : Bytes) : (dataText payload).length = payload.length + 10 :=
  List.length_append

/-- Data of the declared length is taken as it is. -/
theorem declaredData?_dataText (payload : Bytes) (htail : Stops Byte.isRegular tail)
    (position : Nat) :
    declaredData? payload.length ⟨position, dataText payload ++ tail⟩ =
      some (payload, ⟨position + (dataText payload).length, tail⟩) := by
  have hread := token_of_scan_white Byte.feed_white (Token.scan_reserved .endStream htail)
    (position + payload.length)
  rw [List.drop_left] at hread
  rw [dataText_append, length_dataText]
  refine declaredData?_eq_some.mpr ⟨?_, ?_, List.take_left.symm⟩
  · rw [List.length_append]
    exact Nat.le_add_right _ _
  · unfold Cursor.advance
    rw [List.drop_left]
    exact hread

/-- The line feed in front of `endstream` is dropped, and no more of data that does not end in a
    carriage return. -/
theorem dropLineEnd_feed {payload : Bytes} (h : payload.getLast? ≠ some 0x0D) :
    dropLineEnd (payload ++ [0x0A]) = payload := by
  have hreverse : payload.reverse.head? ≠ some 0x0D := by
    rwa [List.head?_reverse]
  unfold dropLineEnd
  rw [List.reverse_append, List.reverse_singleton, List.singleton_append]
  dsimp only
  split
  · rename_i rest hlast
    refine absurd ?_ hreverse
    change payload.reverse = _ at hlast
    rw [hlast, List.head?_cons]
  · exact List.reverse_reverse payload

/-- The search takes data that does not hold the word `endstream`. -/
theorem searchedData_dataText {payload : Bytes} {limit : Nat}
    (hword : ¬Reserved.endStream.spelling <:+: payload) (hlast : payload.getLast? ≠ some 0x0D)
    (hlimit : payload.length + 10 ≤ limit) (htail : Stops Byte.isRegular tail) (position : Nat) :
    searchedData limit ⟨position, dataText payload ++ tail⟩ =
      .ok payload ⟨position + (dataText payload).length, tail⟩ := by
  have hne : Reserved.endStream.spelling ≠ [] := by decide
  have hfirst : Bytes.FirstAt Reserved.endStream.spelling (dataText payload ++ tail)
      (payload.length + 1) := by
    rw [dataText_append]
    exact Bytes.firstAt_append (by decide) hword tail
  have hend : payload.length + 1 + Reserved.endStream.spelling.length ≤ limit := hlimit
  have hfind : (⟨position, dataText payload ++ tail⟩ : Cursor).find? Reserved.endStream.spelling
      limit = some (position + (payload.length + 1)) := by
    rw [Cursor.find?_eq_first? hne, (Bytes.first?_eq_some hne).mpr (hfirst.take hne hend)]
    rfl
  have hlength : (payload ++ [0x0A]).length = payload.length + 1 := List.length_append
  have hread := expect_spelling .endStream Byte.nil_white htail (position + (payload.length + 1))
  rw [List.nil_append] at hread
  unfold searchedData
  rw [hfind]
  dsimp only
  rw [Nat.add_sub_cancel_left, Cursor.advance]
  dsimp only
  rw [dataText_append, List.append_cons, ← hlength, List.drop_left, List.take_left, hlength, hread]
  dsimp only
  rw [dropLineEnd_feed hlast, length_dataText]
  rfl

/-- With the length in the dictionary, the data behind the keyword `stream` is taken as it is. -/
theorem streamData_declared (heol : IsLineBreak eol) {payload : Bytes}
    (hlength : declaredLength? entries = some payload.length)
    (htail : Stops Byte.isRegular tail) (position : Nat) :
    streamData tolerance entries ⟨position, eol ++ (dataText payload ++ tail)⟩ =
      .ok payload ⟨position + eol.length + (dataText payload).length, tail⟩ := by
  unfold streamData Cursor.advance
  dsimp only
  rw [lineEndLength_lineBreak heol, List.drop_left, hlength, Option.bind_some,
    declaredData?_dataText payload htail]

/-- Without a direct length, a lenient reader searches for the end of the data. -/
theorem streamData_searched (heol : IsLineBreak eol) (hlenient : tolerance.lenientStreams = true)
    (hlength : declaredLength? entries = none) (text : Bytes) (position : Nat) :
    streamData tolerance entries ⟨position, eol ++ text⟩ =
      searchedData tolerance.streamSearchLimit ⟨position + eol.length, text⟩ := by
  unfold streamData Cursor.advance
  dsimp only
  rw [lineEndLength_lineBreak heol, List.drop_left, hlength, Option.bind_none]
  exact if_pos hlenient

/-- Without a direct length, a strict reader fails. -/
theorem streamData_strict (heol : IsLineBreak eol) (hstrict : tolerance.lenientStreams = false)
    (hlength : declaredLength? entries = none) (text : Bytes) (position : Nat) :
    ∃ c, streamData tolerance entries ⟨position, eol ++ text⟩ =
      .error (if entries.contains "Length" then .malformed (position + eol.length) .streamLength
        else .missingKey "Length") c := by
  unfold streamData Cursor.advance
  dsimp only
  rw [lineEndLength_lineBreak heol, List.drop_left, hlength, Option.bind_none, hstrict,
    if_neg Bool.false_ne_true]
  refine ⟨behindDeclared entries ⟨position + eol.length, text⟩, ?_⟩
  dsimp only
  split <;> rfl

/-! ## The stream -/

/-- A stream as it is written: its dictionary, what may stand behind that, the keyword `stream` with
    the end of its line, and the data with what ends it. -/
def streamText (front gap eol payload : Bytes) : Bytes :=
  front ++ (gap ++ (Reserved.stream.spelling ++ (eol ++ dataText payload)))

/-- The reader comes to the data of a stream with its dictionary. -/
theorem read_streamText (hnesting : 0 < tolerance.maxNesting)
    (hfront : DictText tolerance front entries) (hgap : Gap gap) (heol : IsLineBreak eol)
    (payload tail : Bytes) (position : Nat) :
    read tolerance ⟨position, streamText front gap eol payload ++ tail⟩ =
      match streamData tolerance entries
        ⟨position + front.length + gap.length + 6, eol ++ (dataText payload ++ tail)⟩ with
      | .ok data c => .ok (.stream entries data) c
      | .error e c => .error e c := by
  have hkeyword := significant_of_token (token_of_scan (Token.scan_reserved .stream
    (stops_lineBreak heol (dataText payload ++ tail))) (position + front.length + gap.length))
    Token.noConfusion fun _ => Token.noConfusion
  rw [← significant_gap hgap, List.drop_left] at hkeyword
  unfold streamText
  simp only [List.append_assoc]
  rw [read_of_readDict hnesting (hfront position _)]
  unfold dictOrStream
  rw [hkeyword]
  rfl

/-- Stream data comes back exactly. With the length in the dictionary it is what was written, for
    every reader and whatever bytes it holds. Without a direct length a lenient reader finds it by
    searching, if it does not hold the word `endstream`, does not end in a carriage return and ends
    within the limit; a strict reader fails. -/
theorem read_stream (hnesting : 0 < tolerance.maxNesting)
    (hfront : DictText tolerance front entries) (hgap : Gap gap) (heol : IsLineBreak eol)
    (payload : Bytes) (htail : Stops Byte.isRegular tail) (position : Nat) :
    let c : Cursor := ⟨position, streamText front gap eol payload ++ tail⟩
    let whole : EStateM.Result Error Cursor Object := .ok (.stream entries payload)
      ⟨position + (streamText front gap eol payload).length, tail⟩
    (entries.get? "Length" = some (.integer payload.length) → read tolerance c = whole) ∧
    (entries.get? "Length" = none ∨ (∃ key, entries.get? "Length" = some (.reference key)) →
      (tolerance.lenientStreams = true → ¬Reserved.endStream.spelling <:+: payload →
        payload.getLast? ≠ some 0x0D → payload.length + 10 ≤ tolerance.streamSearchLimit →
        read tolerance c = whole) ∧
      (tolerance.lenientStreams = false → ∃ c', read tolerance c =
        .error (if entries.contains "Length" then
          .malformed (position + front.length + gap.length + 6 + eol.length) .streamLength
          else .missingKey "Length") c')) := by
  intro c whole
  have hread := read_streamText hnesting hfront hgap heol payload tail position
  have hplace : position + (streamText front gap eol payload).length =
      position + front.length + gap.length + 6 + eol.length + (dataText payload).length := by
    have hsix : Reserved.stream.spelling.length = 6 := rfl
    simp only [streamText, List.length_append, hsix]
    omega
  refine ⟨fun hlength => ?_, fun hlength => ?_⟩
  · have hdeclared : declaredLength? entries = some payload.length := by
      rw [declaredLength?, hlength]
      rfl
    rw [streamData_declared heol hdeclared htail] at hread
    rw [hread, ← hplace]
  · have hnone : declaredLength? entries = none := by
      unfold declaredLength?
      rcases hlength with hlength | ⟨key, hlength⟩ <;> (rw [hlength]; rfl)
    refine ⟨fun hlenient hword hlast hlimit => ?_, fun hstrict => ?_⟩
    · rw [streamData_searched heol hlenient hnone,
        searchedData_dataText hword hlast hlimit htail] at hread
      rw [hread, ← hplace]
    · obtain ⟨c', hdata⟩ := streamData_strict heol hstrict hnone (dataText payload ++ tail)
        (position + front.length + gap.length + 6)
      rw [hdata] at hread
      exact ⟨c', hread⟩

/-- A dictionary with a length and nothing else. -/
def lengthDict (length : Object) : Dict Object := ⟨[("Length", length)]⟩

theorem get?_lengthDict (length : Object) : (lengthDict length).get? "Length" = some length := by
  simp [lengthDict, Dict.get?, Dict.lookup]

theorem dictText_lengthDict (length : Object) (h : Printable length) (hdepth : length.depth < 256) :
    DictText Options.strict.toTolerance ((dict (lengthDict length)).print plainStyle)
        (lengthDict length) ∧
      DictText Options.lenient.toTolerance ((dict (lengthDict length)).print plainStyle)
        (lengthDict length) := by
  have hx : Printable (dict (lengthDict length)) :=
    .dict (List.pairwise_singleton _ _) (List.forall_mem_singleton.mpr h)
  have hle : (dict (lengthDict length)).depth ≤ 256 := by
    rw [lengthDict, depth, depthEntries, depthEntries]
    omega
  rw [print_eq]
  exact ⟨(spelled_print plainStyle hx).dictText hx rfl hle,
    (spelled_print plainStyle hx).dictText hx rfl hle⟩

/-- The word `endstream` as data with its length, and data with an indirect length. -/
theorem writtenStreams_read :
    read Options.strict.toTolerance
        ⟨0, ascii "<< /Length 9 >>\nstream\r\nendstream\nendstream"⟩ =
      .ok (.stream (lengthDict (.integer 9)) (ascii "endstream")) ⟨43, []⟩ ∧
    read Options.lenient.toTolerance ⟨0, ascii "<< /Length 9 0 R >>\nstream\nabc\nendstream"⟩ =
      .ok (.stream (lengthDict (.reference ⟨9, 0⟩)) (ascii "abc")) ⟨40, []⟩ ∧
    ∃ c, read Options.strict.toTolerance
        ⟨0, ascii "<< /Length 9 0 R >>\nstream\nabc\nendstream"⟩ =
      .error (.malformed 27 .streamLength) c := by
  have hdirect := dictText_lengthDict (.integer 9) (.integer (by decide)) (by decide)
  have hindirect := dictText_lengthDict (.reference ⟨9, 0⟩)
    (.reference (by decide) (by decide)) (by decide)
  have hgap : Gap [0x0A] := .of_white Byte.feed_white
  have hreference := get?_lengthDict (.reference ⟨9, 0⟩)
  have hread := (read_stream (by decide) hdirect.1 hgap (Or.inr rfl) (ascii "endstream")
    Bytes.stops_nil 0).1 (get?_lengthDict (.integer 9))
  have hsearched := ((read_stream (by decide) hindirect.2 hgap (Or.inl rfl) (ascii "abc")
    Bytes.stops_nil 0).2 (Or.inr ⟨_, hreference⟩)).1 rfl (by decide) (by decide) (by decide)
  obtain ⟨c, hstrict⟩ := ((read_stream (by decide) hindirect.1 hgap (Or.inl rfl) (ascii "abc")
    Bytes.stops_nil 0).2 (Or.inr ⟨_, hreference⟩)).2 rfl
  have htext : streamText ((dict (lengthDict (.integer 9))).print plainStyle) [0x0A] [0x0D, 0x0A]
      (ascii "endstream") = ascii "<< /Length 9 >>\nstream\r\nendstream\nendstream" := by
    decide +kernel
  have htext' : streamText ((dict (lengthDict (.reference ⟨9, 0⟩))).print plainStyle) [0x0A] [0x0A]
      (ascii "abc") = ascii "<< /Length 9 0 R >>\nstream\nabc\nendstream" := by
    decide +kernel
  have hfront : ((dict (lengthDict (.reference ⟨9, 0⟩))).print plainStyle).length = 19 := by
    decide +kernel
  rw [htext, List.append_nil] at hread
  rw [htext', List.append_nil] at hsearched hstrict
  rw [hfront, Dict.contains, hreference] at hstrict
  exact ⟨hread, hsearched, c, hstrict⟩

end Object

end CrossReference
