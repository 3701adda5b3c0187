import NodeStore.Proofs.Rlp.Grammar
import NodeStore.Rlp.Decode

/-!
The reader accepts exactly the words of the format. First the header bytes, then
one framed item, then rows of items and the values made of them.
-/

namespace NodeStore.Rlp

section Lead

variable {b : UInt8} {kind : Kind} {n : Nat}

/-- A byte stands for itself if its highest bit is not set. -/
theorem Lead.ofByte_eq_itself_iff : Lead.ofByte b = .itself ↔ b.toNat ≤ 0x7f := by
  simp only [Lead.ofByte]
  repeat' split
  all_goals simp
  all_goals omega

theorem eq_ofNat_add_sub (base : Nat) (hBase : base ≤ b.toNat) :
    b = .ofNat (base + (b.toNat - base)) := by
  rw [Nat.add_sub_cancel' hBase, UInt8.ofNat_toNat]

/-- A byte that announces a short payload is the base of the kind plus the
length. -/
theorem Lead.eq_of_ofByte_short (h : Lead.ofByte b = .short kind n) :
    n ≤ maxShortLength ∧ b = .ofNat (kind.base + n) := by
  simp only [Lead.ofByte] at h
  repeat' split at h
  all_goals cases h
  · exact ⟨by simp only [maxShortLength]; omega, eq_ofNat_add_sub 0x80 (by omega)⟩
  · exact ⟨by simp only [maxShortLength]; omega, eq_ofNat_add_sub 0xc0 (by omega)⟩

/-- A byte that announces a length of its own is the last base for short ones
plus the number of the length's bytes, of which there are one to eight. -/
theorem Lead.eq_of_ofByte_long (h : Lead.ofByte b = .long kind n) :
    0 < n ∧ n ≤ 8 ∧ b = .ofNat (kind.base + maxShortLength + n) := by
  have hRange := b.toNat_lt
  simp only [Lead.ofByte] at h
  repeat' split at h
  all_goals cases h
  · exact ⟨by omega, by omega, eq_ofNat_add_sub 0xb7 (by omega)⟩
  · exact ⟨by omega, by omega, eq_ofNat_add_sub 0xf7 (by omega)⟩

theorem toNat_ofNat_of_lt (h : n < 256) : (UInt8.ofNat n).toNat = n := UInt8.toNat_ofNat_of_lt' h

/-- The first byte of a short header is read as the kind and length that it was made of. -/
theorem Lead.ofByte_short (h : n ≤ maxShortLength) :
    Lead.ofByte (.ofNat (kind.base + n)) = .short kind n := by
  rw [maxShortLength] at h
  cases kind with
  | string =>
      have hByte : (UInt8.ofNat (0x80 + n)).toNat = 0x80 + n := toNat_ofNat_of_lt (by omega)
      rw [Kind.base, Lead.ofByte, hByte, if_neg (by omega), if_pos (by omega), Nat.add_sub_cancel_left]
  | list =>
      have hByte : (UInt8.ofNat (0xc0 + n)).toNat = 0xc0 + n := toNat_ofNat_of_lt (by omega)
      rw [Kind.base, Lead.ofByte, hByte, if_neg (by omega), if_neg (by omega), if_neg (by omega),
        if_pos (by omega), Nat.add_sub_cancel_left]

/-- So is the first byte of a long header, with the number of the bytes of the length. -/
theorem Lead.ofByte_long (hPos : 0 < n) (hCount : n ≤ 8) :
    Lead.ofByte (.ofNat (kind.base + maxShortLength + n)) = .long kind n := by
  cases kind with
  | string =>
      have hByte : (UInt8.ofNat (0xb7 + n)).toNat = 0xb7 + n := toNat_ofNat_of_lt (by omega)
      change Lead.ofByte (.ofNat (0xb7 + n)) = _
      rw [Lead.ofByte, hByte, if_neg (by omega), if_neg (by omega), if_pos (by omega),
        Nat.add_sub_cancel_left]
  | list =>
      have hByte : (UInt8.ofNat (0xf7 + n)).toNat = 0xf7 + n := toNat_ofNat_of_lt (by omega)
      change Lead.ofByte (.ofNat (0xf7 + n)) = _
      rw [Lead.ofByte, hByte, if_neg (by omega), if_neg (by omega), if_neg (by omega),
        if_neg (by omega), Nat.add_sub_cancel_left]

end Lead

namespace Frame

/-- A frame that was read is a framed payload, with its header before it and
what was not read after it. -/
theorem framed_of_read {bytes : Bytes} {frame : Frame} (h : read bytes = .ok frame) :
    ∃ header, Framed frame.kind header frame.payload ∧ header.length = frame.headerLength ∧
      bytes = header ++ frame.payload ++ frame.rest := by
  cases bytes with
  | nil => cases h
  | cons first bytes =>
      rw [read] at h
      cases hLead : Lead.ofByte first with
      | itself =>
          rw [hLead] at h
          cases h
          exact ⟨[], .itself (Lead.ofByte_eq_itself_iff.1 hLead), rfl, rfl⟩
      | short kind length =>
          rw [hLead] at h
          obtain ⟨hShort, rfl⟩ := Lead.eq_of_ofByte_short hLead
          obtain ⟨rfl, hHeader, rfl, rfl⟩ := cut_eq_ok h
          exact ⟨_, .short hShort, hHeader.symm, rfl⟩
      | long kind count =>
          rw [hLead] at h
          obtain ⟨-, hCount, rfl⟩ := Lead.eq_of_ofByte_long hLead
          obtain ⟨rfl, hHeader, digits, rfl, hLength, hLong, hZero, rfl⟩ := cutLong_eq_ok h
          have hDigits : digits.head? ≠ some 0 := by
            intro hHead
            rw [List.append_assoc, List.head?_append, hHead] at hZero
            exact hZero rfl
          refine ⟨_, .long hLong hLength hDigits hCount, ?_, rfl⟩
          rw [hHeader, List.length_cons, Nat.add_comm]

theorem cut_append (kind : Kind) (headerLength : Nat) (payload rest : Bytes) :
    cut kind headerLength payload.length (payload ++ rest) =
      .ok ⟨kind, headerLength, payload, rest⟩ := by
  rw [cut, Bytes.split?_append]

/-- A header that frames a payload is read as such, whatever comes after the payload. -/
theorem read_of_framed {kind : Kind} {header payload : Bytes} (h : Framed kind header payload)
    (rest : Bytes) :
    read (header ++ payload ++ rest) = .ok ⟨kind, header.length, payload, rest⟩ := by
  cases h with
  | @itself b hSmall =>
      change read (b :: rest) = _
      rw [read, Lead.ofByte_eq_itself_iff.2 hSmall]
      rfl
  | short hShort =>
      change read (_ :: (payload ++ rest)) = _
      rw [read, Lead.ofByte_short hShort]
      exact cut_append kind 1 payload rest
  | @long _ digits _ hLong hLength hLead hCount =>
      have hPos : 0 < digits.length := by
        apply List.length_pos_iff.2
        rintro rfl
        rw [← hLength] at hLong
        cases hLong
      have hZero : (digits ++ (payload ++ rest)).head? ≠ some 0 := by
        obtain ⟨lead, tail, rfl⟩ := List.exists_cons_of_length_pos hPos
        exact hLead
      change read (_ :: (digits ++ payload ++ rest)) = _
      rw [read, Lead.ofByte_long hPos hCount, List.append_assoc]
      change cutLong kind digits.length _ = _
      rw [cutLong, if_neg hZero, Bytes.split?_append]
      simp only
      rw [hLength, if_neg (Nat.not_le_of_lt hLong), cut_append, List.length_cons, Nat.add_comm]

end Frame

/-- A word that a decoder for framed items turns into a value, whatever comes
after the word. -/
def Accepts (decode : Nat → Frame → Except DecodeError Value) (start : Nat) (word : Bytes)
    (value : Value) : Prop :=
  ∃ kind header payload, Framed kind header payload ∧ word = header ++ payload ∧
    ∀ rest, decode start ⟨kind, header.length, payload, rest⟩ = .ok value

section Items

variable {decode : Nat → Frame → Except DecodeError Value}

/-- An item that is decoded whatever comes after it is an accepted word. -/
theorem accepts_of_read
    (hRest : ∀ position frame rest, decode position { frame with rest } = decode position frame)
    {position : Nat} {bytes : Bytes} {frame : Frame} {value : Value}
    (hRead : Frame.read bytes = .ok frame) (hDecode : decode position frame = .ok value) :
    ∃ word, bytes = word ++ frame.rest ∧ word.length = frame.length ∧
      Accepts decode position word value := by
  obtain ⟨header, hFramed, hHeader, hBytes⟩ := Frame.framed_of_read hRead
  refine ⟨header ++ frame.payload, hBytes, ?_, frame.kind, header, frame.payload, hFramed, rfl,
    fun rest => ?_⟩
  · rw [List.length_append, hHeader, Frame.length]
  · rw [hHeader, ← hDecode]
    exact hRest position frame rest

/-- What is decoded item after item is a row of accepted words. -/
theorem row_of_decodeItems
    (hRest : ∀ position frame rest, decode position { frame with rest } = decode position frame)
    {position : Nat} {bytes : Bytes} {values : List Value}
    (h : decodeItems decode position bytes = .ok values) :
    ∃ parts, Row (Accepts decode) position parts ∧ parts.flatMap Prod.fst = bytes ∧
      parts.map Prod.snd = values := by
  fun_induction decodeItems decode position bytes generalizing values with
  | case1 position bytes hEmpty =>
      cases h
      exact ⟨[], .nil, (List.isEmpty_iff.1 hEmpty).symm, rfl⟩
  | case2 => cases h
  | case3 => cases h
  | case4 => cases h
  | case5 position bytes hBytes frame hRead first hFirst others hOthers ih =>
      cases h
      obtain ⟨word, hWord, hLength, hAccepts⟩ := accepts_of_read hRest hRead hFirst
      obtain ⟨parts, hRow, hWords, hValues⟩ := ih hOthers
      rw [← hLength] at hRow
      refine ⟨(word, first) :: parts, row_cons.2 ⟨hAccepts, hRow⟩, ?_, ?_⟩
      · rw [List.flatMap_cons, hWords, ← hWord]
      · rw [List.map_cons, hValues]

theorem decodeItems_nil (position : Nat) : decodeItems decode position [] = .ok [] := by
  rw [decodeItems]
  rfl

theorem decodeItems_of_flaw {position : Nat} {bytes : Bytes} {flaw : Flaw} (hBytes : bytes ≠ [])
    (hRead : Frame.read bytes = .error flaw) :
    decodeItems decode position bytes = .error (.malformed position flaw.reason) := by
  have hSome : ¬bytes.isEmpty = true := fun hEmpty => hBytes (List.isEmpty_iff.1 hEmpty)
  rw [decodeItems, if_neg hSome]
  split
  · next other hOther =>
      cases hOther.symm.trans hRead
      rfl
  · next frame hFrame => cases hFrame.symm.trans hRead

/-- To decode a row of items is to decode the first and then the others behind it. -/
theorem decodeItems_of_frame {position : Nat} {bytes : Bytes} {frame : Frame}
    (hRead : Frame.read bytes = .ok frame) :
    decodeItems decode position bytes =
      match decode position frame with
      | .error e => .error e
      | .ok value =>
          match decodeItems decode (position + frame.length) frame.rest with
          | .error e => .error e
          | .ok values => .ok (value :: values) := by
  have hSome : ¬bytes.isEmpty = true := by
    intro hEmpty
    rw [List.isEmpty_iff.1 hEmpty] at hRead
    cases hRead
  rw [decodeItems, if_neg hSome]
  split
  · next flaw hFlaw => cases hFlaw.symm.trans hRead
  · next other hOther =>
      cases hOther.symm.trans hRead
      rfl

theorem decodeItems_of_read {position : Nat} {bytes : Bytes} {frame : Frame} {first : Value}
    {others : List Value} (hRead : Frame.read bytes = .ok frame)
    (hFirst : decode position frame = .ok first)
    (hOthers : decodeItems decode (position + frame.length) frame.rest = .ok others) :
    decodeItems decode position bytes = .ok (first :: others) := by
  rw [decodeItems_of_frame hRead, hFirst]
  simp only
  rw [hOthers]

/-- A row of accepted words is decoded as their values. -/
theorem decodeItems_of_row {position : Nat} {parts : List (Bytes × Value)}
    (h : Row (Accepts decode) position parts) :
    decodeItems decode position (parts.flatMap Prod.fst) = .ok (parts.map Prod.snd) := by
  induction parts generalizing position with
  | nil => exact decodeItems_nil position
  | cons part parts ih =>
      obtain ⟨⟨kind, header, payload, hFramed, hWord, hDecode⟩, hRest⟩ := row_cons.1 h
      rw [List.flatMap_cons, hWord]
      rw [hWord, List.length_append] at hRest
      exact decodeItems_of_read (Frame.read_of_framed hFramed _) (hDecode _) (ih hRest)

end Items

section Frame

variable {levels start : Nat} {header payload rest : Bytes} {value : Value}

/-- What comes after an item has no part in what the item is decoded as. -/
theorem Frame.decode_rest (levels position : Nat) (frame : Frame) (rest : Bytes) :
    Frame.decode levels position { frame with rest } = Frame.decode levels position frame := by
  rcases frame with ⟨_ | _, headerLength, payload, old⟩ <;> cases levels <;> rfl

theorem Frame.decode_string (levels start : Nat) (header payload rest : Bytes) :
    Frame.decode levels start ⟨.string, header.length, payload, rest⟩ =
      .ok (.scalar (start + (header ++ payload).length) (.bytes payload)) := by
  rw [List.length_append]
  cases levels <;> rfl

/-- A list is decoded if there is a level left and its payload is a row of items. -/
theorem Frame.decode_list_eq_ok_iff :
    Frame.decode levels start ⟨.list, header.length, payload, rest⟩ = .ok value ↔
      ∃ depth items, levels = depth + 1 ∧
        decodeItems (Frame.decode depth) (start + header.length) payload = .ok items ∧
        value = .list (start + (header ++ payload).length) items := by
  cases levels with
  | zero =>
      constructor
      · intro h
        cases h
      · rintro ⟨depth, items, hLevels, -⟩
        cases hLevels
  | succ depth =>
      rw [List.length_append]
      constructor
      · intro h
        simp only [Frame.decode] at h
        split at h
        · cases h
        · next items hItems =>
            cases h
            exact ⟨depth, items, rfl, hItems, rfl⟩
      · rintro ⟨_, items, hLevels, hItems, rfl⟩
        cases hLevels
        simp only [Frame.decode, hItems]
        rfl

end Frame

/-- A word that is accepted with some levels left is a word of that depth, and
its value is placed where it starts. -/
theorem placed_of_accepts {levels start : Nat} {word : Bytes} {value : Value}
    (h : Accepts (Frame.decode levels) start word value) : Placed levels start word value := by
  -- strong induction: the elements of a list are decoded with one level less
  induction levels using Nat.strongRecOn generalizing start word value with
  | ind levels ih =>
      obtain ⟨kind, header, payload, hFramed, rfl, hDecode⟩ := h
      cases kind with
      | string =>
          have hValue := (Frame.decode_string levels start header payload []).symm.trans (hDecode [])
          cases hValue
          exact .scalar hFramed
      | list =>
          obtain ⟨depth, items, rfl, hItems, rfl⟩ := Frame.decode_list_eq_ok_iff.1 (hDecode [])
          obtain ⟨parts, hRow, rfl, rfl⟩ := row_of_decodeItems (Frame.decode_rest depth) hItems
          exact .list hFramed (hRow.imp fun _ _ _ => ih depth (Nat.lt_succ_self depth))

/-- A word is accepted with the value that is placed for it. -/
theorem accepts_of_placed {levels start : Nat} {word : Bytes} {value : Value}
    (h : Placed levels start word value) : Accepts (Frame.decode levels) start word value := by
  induction h with
  | scalar hFramed =>
      exact ⟨.string, _, _, hFramed, rfl, Frame.decode_string _ _ _ _⟩
  | list hFramed hParts ih =>
      refine ⟨.list, _, _, hFramed, rfl, fun rest => ?_⟩
      exact Frame.decode_list_eq_ok_iff.2 ⟨_, _, rfl, decodeItems_of_row ih, rfl⟩

section Decode

variable {data : Bytes} {position : Nat} {value : Value}

/-- What is decoded is a word at the offset, with its value placed there. -/
theorem exists_placed_of_decode (h : decode data position = .ok value) :
    ∃ word, word <+: data.drop position ∧ Placed maxNesting position word value := by
  simp only [decode] at h
  split at h
  · cases h
  · split at h
    · cases h
    · next frame hRead =>
        obtain ⟨word, hWord, -, hAccepts⟩ :=
          accepts_of_read (Frame.decode_rest maxNesting) hRead h
        exact ⟨word, ⟨frame.rest, hWord.symm⟩, placed_of_accepts hAccepts⟩

theorem lt_length_of_read {frame : Frame} (h : Frame.read (data.drop position) = .ok frame) :
    position < data.length := by
  apply Nat.lt_of_not_le
  intro hOutside
  rw [List.drop_eq_nil_of_le hOutside] at h
  cases h

/-- A word at the offset is decoded as the value placed for it. -/
theorem decode_of_placed {word : Bytes} (hWord : word <+: data.drop position)
    (h : Placed maxNesting position word value) : decode data position = .ok value := by
  obtain ⟨rest, hData⟩ := hWord
  obtain ⟨kind, header, payload, hFramed, rfl, hDecode⟩ := accepts_of_placed h
  have hRead := Frame.read_of_framed hFramed rest
  rw [hData] at hRead
  rw [decode, if_neg (Nat.not_le_of_lt (lt_length_of_read hRead)), hRead]
  exact hDecode rest

theorem Placed.position_eq {depth start : Nat} {word : Bytes} (h : Placed depth start word value) :
    value.position = start + word.length := by
  cases h <;> rfl

/-- Decoding at an offset succeeds if and only if a word of the format with at
most 1024 lists inside one another stands there. Then there is no other such
word, it spells the decoded value without its offsets, and every node of the
value carries the offset just past its own bytes. -/
theorem decode_recognizes_grammar (data : Bytes) (position : Nat) :
    ((∃ value, decode data position = .ok value) ↔
      ∃ word tree, word <+: data.drop position ∧ Spells maxNesting word tree) ∧
    ∀ value, decode data position = .ok value →
      ∃ word, word <+: data.drop position ∧ Spells maxNesting word value.tree ∧
        Placed maxNesting position word value ∧
        ∀ other tree, other <+: data.drop position → Spells maxNesting other tree →
          other = word ∧ tree = value.tree := by
  refine ⟨⟨?_, ?_⟩, ?_⟩
  · rintro ⟨value, hDecode⟩
    obtain ⟨word, hWord, hPlaced⟩ := exists_placed_of_decode hDecode
    exact ⟨word, value.tree, hWord, hPlaced.spells⟩
  · rintro ⟨word, tree, hWord, hSpells⟩
    obtain ⟨value, hPlaced, -⟩ := hSpells.placed position
    exact ⟨value, decode_of_placed hWord hPlaced⟩
  · intro value hDecode
    obtain ⟨word, hWord, hPlaced⟩ := exists_placed_of_decode hDecode
    refine ⟨word, hWord, hPlaced.spells, hPlaced, ?_⟩
    intro other tree hOther hSpells
    obtain ⟨value', hPlaced', rfl⟩ := hSpells.placed position
    have hSame := (decode_of_placed hOther hPlaced').symm.trans hDecode
    obtain rfl : value' = value := Except.ok.inj hSame
    -- both words end where the value does, and both start at the offset
    have hLength : other.length = word.length := by
      have hEnd := hPlaced.position_eq
      rw [hPlaced'.position_eq] at hEnd
      exact Nat.add_left_cancel hEnd
    exact ⟨(List.prefix_of_prefix_length_le hOther hWord (Nat.le_of_eq hLength)).eq_of_length hLength, rfl⟩

/-- A list of a byte, a string of one byte and an empty list, read behind a byte
that is skipped and before one that is not looked at. -/
theorem decode_recognizes_grammar_nested :
    let data : Bytes := [0xff, 0xc4, 0x05, 0x81, 0x06, 0xc0, 0x00]
    let value : Value :=
      .list 6 [.scalar 3 (.bytes [0x05]), .scalar 5 (.bytes [0x06]), .list 6 []]
    decode data 1 = .ok value ∧
      ∃ word, word <+: data.drop 1 ∧ Spells maxNesting word value.tree ∧
        Placed maxNesting 1 word value ∧
        ∀ other tree, other <+: data.drop 1 → Spells maxNesting other tree →
          other = word ∧ tree = value.tree := by
  intro data value
  have hDecode : decode data 1 = .ok value := by cbv
  exact ⟨hDecode, (decode_recognizes_grammar data 1).2 value hDecode⟩

end Decode

end NodeStore.Rlp
