import NodeStore.Proofs.Rlp.Blame
import NodeStore.Proofs.Rlp.Nodes
import NodeStore.Proofs.Rlp.Shift

/-!
A buffer read item after item, each where the one before it ends. Such a reader
finds what a list would hold whose payload the buffer is. Main statement: the
items are the longest row of words, a row goes on in what follows it, and a list
header in front makes one value of it all.
-/

namespace NodeStore.Rlp

/-- Words one after the other, none with more than `depth` lists inside one another. -/
def IsRow (depth : Nat) (bytes : Bytes) : Prop :=
  ∃ parts : List (Bytes × Tree), (∀ part ∈ parts, Spells depth part.1 part.2) ∧
    parts.flatMap Prod.fst = bytes

/-- The items of a sequence with their words, which lie end to end from the start
on, and behind which no item can be decoded. -/
structure Stream.Reads (data : Bytes) (position : Nat) (parts : List (Bytes × Value))
    (stream : Stream) : Prop where
  items_eq : stream.items = parts.map Prod.snd
  row : Row (Placed maxNesting) position parts
  words : parts.flatMap Prod.fst <+: data.drop position
  stop_eq : decode data (position + (parts.flatMap Prod.fst).length) = .error stream.stop

section Row

variable {data : Bytes} {position depth : Nat} {parts : List (Bytes × Value)}

theorem length_le_of_row (h : Row (Placed depth) position parts) :
    parts.length ≤ (parts.flatMap Prod.fst).length := by
  induction parts generalizing position with
  | nil => exact Nat.le_refl 0
  | cons part parts ih =>
      obtain ⟨hFirst, hOthers⟩ := row_cons.1 h
      have hPos := hFirst.length_pos
      have hRest := ih hOthers
      rw [List.flatMap_cons, List.length_append, List.length_cons]
      omega

/-- No row of words is longer than one behind which nothing can be decoded. -/
theorem prefix_of_row_of_error {others : List (Bytes × Value)} {e : DecodeError}
    (hOthers : Row (Placed maxNesting) position others)
    (hOtherWords : others.flatMap Prod.fst <+: data.drop position)
    (hParts : Row (Placed maxNesting) position parts)
    (hWords : parts.flatMap Prod.fst <+: data.drop position)
    (hStop : decode data (position + (parts.flatMap Prod.fst).length) = .error e) :
    others <+: parts := by
  induction others generalizing position parts with
  | nil => exact List.nil_prefix
  | cons other others ih =>
      obtain ⟨hOther, hOthers⟩ := row_cons.1 hOthers
      rw [List.flatMap_cons] at hOtherWords
      have hOtherWord := (List.prefix_append _ _).trans hOtherWords
      have hDecode := decode_of_placed hOtherWord hOther
      cases parts with
      | nil => cases hDecode.symm.trans hStop
      | cons part parts =>
          obtain ⟨hPart, hParts⟩ := row_cons.1 hParts
          rw [List.flatMap_cons] at hWords hStop
          have hWord := (List.prefix_append _ _).trans hWords
          have hValue : other.2 = part.2 :=
            Except.ok.inj (hDecode.symm.trans (decode_of_placed hWord hPart))
          have hLength : other.1.length = part.1.length := by
            have hEnd := hOther.position_eq
            rw [hValue, hPart.position_eq] at hEnd
            exact (Nat.add_left_cancel hEnd).symm
          have hSame : other.1 = part.1 :=
            (List.prefix_of_prefix_length_le hOtherWord hWord (Nat.le_of_eq hLength)).eq_of_length
              hLength
          obtain rfl : other = part := Prod.ext hSame hValue
          rw [List.length_append, ← Nat.add_assoc] at hStop
          have hRest := ih hOthers (prefix_drop_of_append hOtherWords) hParts
            (prefix_drop_of_append hWords) hStop
          exact List.cons_prefix_cons.2 ⟨rfl, hRest⟩

/-- A row of words is read item after item, and then what is behind it. -/
theorem decodeStream_of_row (hRow : Row (Placed maxNesting) position parts)
    (hWords : parts.flatMap Prod.fst <+: data.drop position) :
    let later := decodeStream data (position + (parts.flatMap Prod.fst).length)
    decodeStream data position = ⟨parts.map Prod.snd ++ later.items, later.stop⟩ := by
  induction parts generalizing position with
  | nil => rfl
  | cons part parts ih =>
      obtain ⟨hFirst, hOthers⟩ := row_cons.1 hRow
      rw [List.flatMap_cons] at hWords
      have hDecode := decode_of_placed ((List.prefix_append _ _).trans hWords) hFirst
      rw [decodeStream_of_ok hDecode, hFirst.position_eq, ih hOthers (prefix_drop_of_append hWords),
        List.flatMap_cons, List.length_append, ← Nat.add_assoc]
      rfl

/-- Words in a row can be read from any offset on. -/
theorem IsRow.exists_row {bytes : Bytes} (h : IsRow depth bytes) (position : Nat) :
    ∃ parts, Row (Placed depth) position parts ∧ parts.flatMap Prod.fst = bytes := by
  obtain ⟨words, hWords, rfl⟩ := h
  obtain ⟨parts, hRow, rfl⟩ :=
    Rlp.exists_row Value.tree (fun part hPart => (hWords part hPart).placed) position
  have hSame : (parts.map fun part => (part.1, part.2.tree)).flatMap Prod.fst =
      parts.flatMap Prod.fst := List.flatMap_map ..
  exact ⟨parts, hRow, hSame.symm⟩

theorem isRow_of_row (h : Row (Placed depth) position parts) :
    IsRow depth (parts.flatMap Prod.fst) := by
  refine ⟨parts.map fun part => (part.1, part.2.tree), fun part hPart => ?_, List.flatMap_map ..⟩
  obtain ⟨old, hOld, rfl⟩ := List.mem_map.1 hPart
  obtain ⟨start, hPlaced⟩ := h.exists_of_mem hOld
  exact hPlaced.spells

end Row

section Stream

variable {data : Bytes} {position : Nat}

theorem exists_reads (data : Bytes) (position : Nat) :
    ∃ parts, Stream.Reads data position parts (decodeStream data position) := by
  fun_induction decodeStream data position with
  | case1 position e hError => exact ⟨[], rfl, .nil, List.nil_prefix, hError⟩
  | case2 position value hValue later ih =>
      obtain ⟨word, hWord, hPlaced⟩ := exists_placed_of_decode hValue
      obtain ⟨parts, hItems, hRow, hWords, hStop⟩ := ih
      have hEnd := hPlaced.position_eq
      rw [hEnd] at hRow hWords
      refine ⟨(word, value) :: parts, ?_, row_cons.2 ⟨hPlaced, hRow⟩, ?_, ?_⟩
      · rw [hItems]
        rfl
      · obtain ⟨rest, hRest⟩ := hWord
        rw [← List.drop_drop, ← hRest, List.drop_left] at hWords
        rw [List.flatMap_cons, ← hRest]
        exact (List.prefix_append_right_inj word).2 hWords
      · rw [List.flatMap_cons, List.length_append, ← Nat.add_assoc, ← hEnd]
        exact hStop

variable {parts : List (Bytes × Value)} {stream : Stream}

/-- A sequence that starts in the buffer ends with the buffer, or at an item in it
that is malformed. -/
theorem Stream.Reads.stop_cases (h : stream.Reads data position parts)
    (hPosition : position ≤ data.length) :
    stream.stop = .outOfBounds data.length data.length ∧
        parts.flatMap Prod.fst = data.drop position ∨
      (∃ offset reason, stream.stop = .malformed offset reason) ∧
        (parts.flatMap Prod.fst).length < data.length - position := by
  have hLength := h.words.length_le
  rw [List.length_drop] at hLength
  rcases decode_eq_error_iff.1 h.stop_eq with
    ⟨hOutside, hStop⟩ | ⟨hInside, -, offset, -, reason, -, -, -, hStop⟩
  · have hEnd : position + (parts.flatMap Prod.fst).length = data.length := by omega
    rw [hEnd] at hStop
    refine .inl ⟨hStop, h.words.eq_of_length ?_⟩
    rw [List.length_drop]
    omega
  · exact .inr ⟨⟨offset, reason, hStop⟩, by omega⟩

theorem Stream.Reads.longest (h : stream.Reads data position parts) {others : List (Bytes × Value)}
    (hOthers : Row (Placed maxNesting) position others)
    (hWords : others.flatMap Prod.fst <+: data.drop position) : others <+: parts :=
  prefix_of_row_of_error hOthers hWords h.row h.words h.stop_eq

/-- A sequence ends with the buffer if and only if nothing but words of the format
stands there. -/
theorem Stream.Reads.stop_eq_iff (h : stream.Reads data position parts)
    (hPosition : position ≤ data.length) :
    stream.stop = .outOfBounds data.length data.length ↔ IsRow maxNesting (data.drop position) := by
  rcases h.stop_cases hPosition with ⟨hStop, hWhole⟩ | ⟨⟨offset, reason, hStop⟩, hShort⟩
  · rw [← hWhole]
    exact ⟨fun _ => isRow_of_row h.row, fun _ => hStop⟩
  · constructor
    · intro hEnd
      cases hStop.symm.trans hEnd
    · intro hRow
      obtain ⟨others, hOthers, hWords⟩ := hRow.exists_row position
      obtain ⟨more, rfl⟩ := h.longest hOthers (hWords ▸ List.prefix_refl _)
      rw [List.flatMap_append, hWords, List.length_append, List.length_drop] at hShort
      omega

/-- Behind a row of words a longer buffer is read as if it started there. -/
theorem decodeStream_append {a : Bytes}
    (h : (decodeStream a 0).stop = .outOfBounds a.length a.length) (b : Bytes) :
    decodeStream (a ++ b) 0 =
      ⟨(decodeStream a 0).items ++ Value.shiftAll a.length (decodeStream b 0).items,
        (decodeStream b 0).stop.shift a.length⟩ := by
  obtain ⟨parts, hReads⟩ := exists_reads a 0
  rcases hReads.stop_cases (Nat.zero_le _) with ⟨-, hWhole⟩ | ⟨⟨offset, reason, hStop⟩, -⟩
  · rw [List.drop_zero] at hWhole
    have hWords : parts.flatMap Prod.fst <+: (a ++ b).drop 0 := by
      rw [hWhole]
      exact List.prefix_append a b
    rw [decodeStream_of_row hReads.row hWords, hReads.items_eq, hWhole, Nat.zero_add]
    have hLater := decodeStream_append_left a b 0
    rw [Nat.add_zero] at hLater
    rw [hLater]
    rfl
  · cases h.symm.trans hStop

/-- A row of words that fills a buffer is all that is read of it. -/
theorem decodeStream_of_whole_row (hRow : Row (Placed maxNesting) 0 parts)
    (hWords : parts.flatMap Prod.fst = data) :
    decodeStream data 0 = ⟨parts.map Prod.snd, .outOfBounds data.length data.length⟩ := by
  have hEnd : decode data data.length = .error (.outOfBounds data.length data.length) :=
    if_pos (Nat.le_refl _)
  have hPrefix : parts.flatMap Prod.fst <+: data.drop 0 := by
    rw [List.drop_zero, hWords]
  rw [decodeStream_of_row hRow hPrefix, hWords, Nat.zero_add, decodeStream_of_error hEnd,
    List.append_nil]

end Stream

section List

variable {depth start : Nat} {parts : List (Bytes × Value)} {payload : Bytes}

/-- A word may stand where no more lists can be nested than there are in it. -/
theorem Placed.of_depth_le {word : Bytes} {value : Value} (h : Placed depth start word value)
    {bound : Nat} (hBound : value.tree.depth ≤ bound) : Placed bound start word value := by
  induction h generalizing bound with
  | scalar hFramed => exact .scalar hFramed
  | @list depth start header parts hFramed hParts ih =>
      rw [Value.tree, Tree.depth] at hBound
      obtain ⟨below, rfl⟩ : ∃ below, bound = below + 1 :=
        Nat.exists_eq_add_one.2 (Nat.lt_of_lt_of_le (Nat.succ_pos _) hBound)
      apply Placed.list hFramed
      intro before part after hSplit
      refine ih before part after hSplit (Nat.le_trans (Tree.depth_le_of_mem ?_)
        (Nat.le_of_succ_le_succ hBound))
      rw [Value.trees_eq_map, List.map_map]
      exact List.mem_map_of_mem (hSplit ▸ List.mem_append_right _ (List.mem_cons_self ..))

theorem row_shift (h : Row (Placed depth) start parts) (count : Nat) :
    Row (Placed depth) (count + start) (parts.map fun part => (part.1, part.2.shift count)) := by
  induction parts generalizing start with
  | nil => exact .nil
  | cons part parts ih =>
      obtain ⟨hFirst, hOthers⟩ := row_cons.1 h
      refine row_cons.2 ⟨hFirst.shift count, ?_⟩
      rw [Nat.add_assoc]
      exact ih hOthers

theorem decodeItems_eq_ok_iff {levels : Nat} {bytes : Bytes} {items : List Value} :
    decodeItems (Frame.decode levels) start bytes = .ok items ↔
      ∃ parts, Row (Placed levels) start parts ∧ parts.flatMap Prod.fst = bytes ∧
        parts.map Prod.snd = items := by
  constructor
  · intro h
    obtain ⟨parts, hRow, hWords, hItems⟩ := row_of_decodeItems (Frame.decode_rest levels) h
    exact ⟨parts, hRow.imp fun _ _ _ => placed_of_accepts, hWords, hItems⟩
  · rintro ⟨parts, hRow, rfl, rfl⟩
    exact decodeItems_of_row (hRow.imp fun _ _ _ => accepts_of_placed)

/-- A payload behind the canonical header of a list is decoded as the elements of
the list. -/
theorem decode_wrap_eq_ok_iff (hPayload : payload.length < 256 ^ 8) {value : Value} :
    let header := Kind.list.header payload.length
    decode (Kind.list.wrap payload) 0 = .ok value ↔
      ∃ parts, Row (Placed (maxNesting - 1)) header.length parts ∧
        parts.flatMap Prod.fst = payload ∧
        value = .list (header.length + payload.length) (parts.map Prod.snd) := by
  intro header
  have hRead := Frame.read_of_framed (Framed.canonical .list hPayload) []
  rw [List.append_nil] at hRead
  have hInside : ¬(Kind.list.wrap payload).length ≤ 0 := by
    have hPos := Kind.list.length_header_pos payload.length
    rw [Kind.wrap, List.length_append]
    omega
  rw [decode, if_neg hInside, List.drop_zero, Kind.wrap, hRead]
  simp only
  rw [Frame.decode_list_eq_ok_iff, List.length_append, Nat.zero_add, Nat.zero_add]
  constructor
  · rintro ⟨depth, items, hDepth, hItems, rfl⟩
    obtain rfl : depth = maxNesting - 1 := by omega
    obtain ⟨parts, hRow, hWords, rfl⟩ := decodeItems_eq_ok_iff.1 hItems
    exact ⟨parts, hRow, hWords, rfl⟩
  · rintro ⟨parts, hRow, hWords, rfl⟩
    exact ⟨maxNesting - 1, _, rfl, decodeItems_eq_ok_iff.2 ⟨parts, hRow, hWords, rfl⟩, rfl⟩

/-- A list is the sequence of what is in it, if that is no deeper than a list may
hold. -/
theorem decode_wrap_of_stream (hPayload : payload.length < 256 ^ 8)
    (hStop : (decodeStream payload 0).stop = .outOfBounds payload.length payload.length)
    (hDepth : ∀ item ∈ (decodeStream payload 0).items, item.tree.depth ≤ maxNesting - 1) :
    let header := Kind.list.header payload.length
    decode (Kind.list.wrap payload) 0 =
      .ok (.list (header.length + payload.length)
        (Value.shiftAll header.length (decodeStream payload 0).items)) := by
  intro header
  obtain ⟨parts, hReads⟩ := exists_reads payload 0
  rw [hReads.items_eq] at hDepth ⊢
  have hRow : Row (Placed (maxNesting - 1)) 0 parts := by
    intro before part after hSplit
    refine (hReads.row before part after hSplit).of_depth_le (hDepth part.2 ?_)
    exact List.mem_map_of_mem (hSplit ▸ List.mem_append_right _ (List.mem_cons_self ..))
  have hWords : parts.flatMap Prod.fst = payload := by
    rcases hReads.stop_cases (Nat.zero_le _) with ⟨-, hWhole⟩ | ⟨⟨offset, reason, hFlaw⟩, -⟩
    · exact hWhole
    · cases hFlaw.symm.trans hStop
  refine (decode_wrap_eq_ok_iff hPayload).2
    ⟨parts.map fun part => (part.1, part.2.shift header.length), ?_, ?_, ?_⟩
  · exact row_shift hRow header.length
  · rw [← hWords, List.flatMap_map]
  · rw [Value.shiftAll_eq_map, List.map_map, List.map_map]
    rfl

theorem stream_of_decode_wrap (hPayload : payload.length < 256 ^ 8) {value : Value}
    (h : decode (Kind.list.wrap payload) 0 = .ok value) :
    (decodeStream payload 0).stop = .outOfBounds payload.length payload.length ∧
      ∀ item ∈ (decodeStream payload 0).items, item.tree.depth ≤ maxNesting - 1 := by
  obtain ⟨parts, hRow, hWords, -⟩ := (decode_wrap_eq_ok_iff hPayload).1 h
  -- the elements are read again where the payload starts a buffer of its own
  obtain ⟨others, hOthers, hOtherWords⟩ := (isRow_of_row hRow).exists_row 0
  have hWhole := decodeStream_of_whole_row
    (hOthers.imp fun _ _ _ hPlaced => hPlaced.mono (Nat.sub_le maxNesting 1))
    (hOtherWords.trans hWords)
  rw [hWhole]
  refine ⟨rfl, fun item hItem => ?_⟩
  obtain ⟨part, hPart, rfl⟩ := List.mem_map.1 hItem
  obtain ⟨start, hPlaced⟩ := hOthers.exists_of_mem hPart
  exact hPlaced.spells.depth_le

end List

/-- Reading item after item is what a list does with its payload.

From any offset on, the items lie end to end, each past the one before it, so
there are no more of them than bytes. They are the longest row of words that starts
there, and the sequence ends with the buffer if and only if nothing but words
stands there; otherwise it ends with a malformed item. Behind a buffer that is
nothing but words another one is read as if it stood alone, with all its offsets
moved along. And behind the canonical header of a list, the payload is decoded if
and only if it is nothing but words that leave room for the list around them; the
elements are the items of the payload, moved along. -/
theorem sequence_is_list_without_header :
    (∀ data position,
      let stream := decodeStream data position
      stream.items.length ≤ data.length - position ∧
      (data.length < position → stream = ⟨[], .outOfBounds position data.length⟩) ∧
      (∃ parts, stream.Reads data position parts ∧
        Value.Tiles position stream.items (position + (parts.flatMap Prod.fst).length) ∧
        ∀ others, Row (Placed maxNesting) position others →
          others.flatMap Prod.fst <+: data.drop position → others <+: parts) ∧
      (position ≤ data.length →
        (stream.stop = .outOfBounds data.length data.length ↔
          IsRow maxNesting (data.drop position)) ∧
        (stream.stop = .outOfBounds data.length data.length ∨
          ∃ offset reason, stream.stop = .malformed offset reason))) ∧
    (∀ a b : Bytes, (decodeStream a 0).stop = .outOfBounds a.length a.length →
      decodeStream (a ++ b) 0 =
        ⟨(decodeStream a 0).items ++ Value.shiftAll a.length (decodeStream b 0).items,
          (decodeStream b 0).stop.shift a.length⟩) ∧
    (∀ payload : Bytes, payload.length < 256 ^ 8 →
      let header := Kind.list.header payload.length
      let stream := decodeStream payload 0
      ((∃ value, decode (header ++ payload) 0 = .ok value) ↔
        stream.stop = .outOfBounds payload.length payload.length ∧
          ∀ item ∈ stream.items, item.tree.depth ≤ maxNesting - 1) ∧
      ∀ value, decode (header ++ payload) 0 = .ok value →
        value = .list (header.length + payload.length)
          (Value.shiftAll header.length stream.items)) := by
  refine ⟨fun data position => ?_, fun a b h => decodeStream_append h b, fun payload hPayload => ?_⟩
  · intro stream
    obtain ⟨parts, hReads⟩ := exists_reads data position
    refine ⟨?_, fun hOutside => ?_, ⟨parts, hReads, ?_, fun others => hReads.longest⟩,
      fun hPosition => ⟨hReads.stop_eq_iff hPosition, ?_⟩⟩
    · have hWords := hReads.words.length_le
      rw [List.length_drop] at hWords
      rw [hReads.items_eq, List.length_map]
      exact Nat.le_trans (length_le_of_row hReads.row) hWords
    · exact decodeStream_of_error (if_pos (Nat.le_of_lt hOutside))
    · rw [hReads.items_eq]
      exact tiles_of_row hReads.row
    · rcases hReads.stop_cases hPosition with ⟨hStop, -⟩ | ⟨hStop, -⟩
      · exact .inl hStop
      · exact .inr hStop
  · intro header stream
    refine ⟨⟨?_, fun ⟨hStop, hDepth⟩ => ⟨_, decode_wrap_of_stream hPayload hStop hDepth⟩⟩, ?_⟩
    · rintro ⟨value, hDecode⟩
      exact stream_of_decode_wrap hPayload hDecode
    · intro value hDecode
      obtain ⟨hStop, hDepth⟩ := stream_of_decode_wrap hPayload hDecode
      exact Except.ok.inj (hDecode.symm.trans (decode_wrap_of_stream hPayload hStop hDepth))

/-- A byte and a list with a byte, read as a list and without its header, and before
a string. -/
theorem sequence_is_list_without_header_nested :
    let payload : Bytes := [0x05, 0xc1, 0x06]
    let items : List Value := [.scalar 1 (.bytes [0x05]), .list 3 [.scalar 3 (.bytes [0x06])]]
    payload.length < 256 ^ 8 ∧
      decode (0xc3 :: payload) 0 = .ok (.list 4 (Value.shiftAll 1 items)) ∧
      (decodeStream payload 0).stop = .outOfBounds 3 3 ∧
      (decodeStream payload 0).items.length ≤ 3 ∧
      (decodeStream (payload ++ [0x80]) 0).stop = (decodeStream [0x80] 0).stop.shift 3 := by
  intro payload items
  obtain ⟨hStreams, hAppend, hList⟩ := sequence_is_list_without_header
  have hPayload : payload.length < 256 ^ 8 := by decide
  have hDecode : decode (0xc3 :: payload) 0 = .ok (.list 4 (Value.shiftAll 1 items)) := by cbv
  obtain ⟨hStop, -⟩ := (hList payload hPayload).1.1 ⟨_, hDecode⟩
  refine ⟨hPayload, hDecode, hStop, (hStreams payload 0).1, ?_⟩
  rw [hAppend payload [0x80] hStop]
  rfl

end NodeStore.Rlp
