import NodeStore.Proofs.Rlp.Encoding

/-!
How far a word of the format can stray from the canonical encoding of its tree.
A byte below `0x80` may be written behind a header of its own, as `0x81` and the
byte, and the headers of the lists around it count the additional byte. Main
statement: nothing else can be written in another way.
-/

namespace NodeStore.Rlp

/-- How many bytes stand before the payload of the item at an offset. -/
def headerLengthAt (data : Bytes) (start : Nat) : Nat :=
  match Frame.read (data.drop start) with
  | .ok frame => frame.headerLength
  | .error _ => 0

mutual

/-- The tree of a value that was read at an offset, with each scalar as it was
written there, header included. The first element of a list starts behind the
header of the list, every other one where the one before it ends. -/
def Value.written (data : Bytes) (start : Nat) : Value → Tree
  | .scalar position _ => .scalar (.bytes ((data.drop start).take (position - start)))
  | .list _ items => .list (writtenAll data (start + headerLengthAt data start) items)

def Value.writtenAll (data : Bytes) (start : Nat) : List Value → List Tree
  | [] => []
  | value :: values => value.written data start :: writtenAll data value.position values

end

/-- The second tree has the shape of the first, and in the place of each scalar
the bytes that write it: the canonical encoding or, for a byte below `0x80`, the
byte behind a header. -/
inductive Written : Tree → Tree → Prop where
  | canonical (payload : Bytes) :
      Written (.scalar (.bytes payload)) (.scalar (.bytes (Scalar.bytes payload).encode))
  | headed {b : UInt8} (hSmall : b.toNat ≤ 0x7f) :
      Written (.scalar (.bytes [b])) (.scalar (.bytes [0x81, b]))
  | list {pairs : List (Tree × Tree)} (hPairs : ∀ pair ∈ pairs, Written pair.1 pair.2) :
      Written (.list (pairs.map Prod.fst)) (.list (pairs.map Prod.snd))

namespace Tree

/-- Written scalars put together, with the shortest header before each list. -/
def assemble (written : Tree) : Bytes := written.write Scalar.toBytes

/-- Whether a byte below `0x80` is written behind a header. -/
def HasHeadedByte (written : Tree) : Prop :=
  ∃ b : UInt8, b.toNat ≤ 0x7f ∧ .bytes [0x81, b] ∈ written.scalars

theorem hasHeadedByte_list {items : List Tree} :
    (list items).HasHeadedByte ↔ ∃ item ∈ items, item.HasHeadedByte := by
  simp only [HasHeadedByte, scalars, scalarsOfAll_eq_flatMap, List.mem_flatMap]
  constructor
  · rintro ⟨b, hSmall, item, hItem, hScalar⟩
    exact ⟨item, hItem, b, hSmall, hScalar⟩
  · rintro ⟨item, hItem, b, hSmall, hScalar⟩
    exact ⟨b, hSmall, item, hItem, hScalar⟩

theorem depthOfAll_le {items : List Tree} {bound : Nat} (h : ∀ item ∈ items, item.depth ≤ bound) :
    depthOfAll items ≤ bound := by
  induction items with
  | nil => exact Nat.zero_le _
  | cons item items ih =>
      obtain ⟨hFirst, hOthers⟩ := List.forall_mem_cons.1 h
      exact Nat.max_le.2 ⟨hFirst, ih hOthers⟩

end Tree

section Scalar

variable {b : UInt8} {payload : Bytes}

theorem Scalar.encode_of_small (h : b.toNat ≤ 0x7f) : (Scalar.bytes [b]).encode = [b] :=
  if_pos h

theorem Scalar.encode_of_not_small (h : ¬∃ b : UInt8, b.toNat ≤ 0x7f ∧ payload = [b]) :
    (Scalar.bytes payload).encode = Kind.string.wrap payload := by
  rw [encode]
  split
  · next b hBytes =>
      obtain rfl : payload = [b] := hBytes
      exact if_neg fun hSmall => h ⟨b, hSmall, rfl⟩
  · rfl

/-- No canonical encoding is a byte below `0x80` behind a header. -/
theorem Scalar.encode_ne_headed (h : b.toNat ≤ 0x7f) :
    (Scalar.bytes payload).encode ≠ [0x81, b] := by
  intro hEncode
  by_cases hPayload : ∃ c : UInt8, c.toNat ≤ 0x7f ∧ payload = [c]
  · obtain ⟨c, hSmall, rfl⟩ := hPayload
    rw [encode_of_small hSmall] at hEncode
    cases hEncode
  · rw [encode_of_not_small hPayload] at hEncode
    match payload with
    | [] => cases hEncode
    | [c] =>
        obtain rfl : c = b := (List.cons.inj (List.cons.inj hEncode).2).1
        exact hPayload ⟨c, h, rfl⟩
    | c :: d :: rest =>
        have hLength := congrArg List.length hEncode
        have hHeader := Kind.length_header_pos .string (c :: d :: rest).length
        simp only [Kind.wrap, List.length_append, List.length_cons, List.length_nil] at hLength hHeader
        omega

/-- A framed string writes its payload. -/
theorem Written.of_framed {header : Bytes} (h : Framed .string header payload) :
    Written (.scalar (.bytes payload)) (.scalar (.bytes (header ++ payload))) := by
  by_cases hPayload : ∃ b : UInt8, b.toNat ≤ 0x7f ∧ payload = [b]
  · obtain ⟨b, hSmall, rfl⟩ := hPayload
    rcases h.header_eq with rfl | ⟨-, rfl, -⟩
    · exact .headed hSmall
    · have hCanonical := Written.canonical [b]
      rwa [Scalar.encode_of_small hSmall] at hCanonical
  · rcases h.header_eq with rfl | ⟨-, -, hSmall⟩
    · have hCanonical := Written.canonical payload
      rwa [Scalar.encode_of_not_small hPayload] at hCanonical
    · exact absurd hSmall hPayload

end Scalar

section Length

variable {pairs : List (Tree × Tree)}
  (hEach : ∀ pair ∈ pairs, pair.1.encode.length ≤ pair.2.assemble.length)

include hEach

theorem length_writeAll_le :
    (Tree.writeAll Scalar.encode (pairs.map Prod.fst)).length ≤
      (Tree.writeAll Scalar.toBytes (pairs.map Prod.snd)).length := by
  induction pairs with
  | nil => exact Nat.le_refl _
  | cons pair pairs ih =>
      obtain ⟨hFirst, hOthers⟩ := List.forall_mem_cons.1 hEach
      simp only [List.map_cons, Tree.writeAll, List.length_append]
      exact Nat.add_le_add hFirst (ih hOthers)

/-- If no element is written shorter and some element longer, then so is the
payload. -/
theorem length_writeAll_lt
    (hSome : ∃ pair ∈ pairs, pair.1.encode.length < pair.2.assemble.length) :
    (Tree.writeAll Scalar.encode (pairs.map Prod.fst)).length <
      (Tree.writeAll Scalar.toBytes (pairs.map Prod.snd)).length := by
  obtain ⟨longer, hMem, hLonger⟩ := hSome
  induction pairs with
  | nil => cases hMem
  | cons pair pairs ih =>
      obtain ⟨hFirst, hOthers⟩ := List.forall_mem_cons.1 hEach
      simp only [List.map_cons, Tree.writeAll, List.length_append]
      rcases List.mem_cons.1 hMem with rfl | hMem
      · exact Nat.add_lt_add_of_lt_of_le hLonger (length_writeAll_le hOthers)
      · exact Nat.add_lt_add_of_le_of_lt hFirst (ih hOthers hMem)

end Length

/-- Either a tree is written canonically, or a byte below `0x80` stands behind a
header, which makes the whole longer. -/
theorem Written.canonical_or_longer {tree written : Tree} (h : Written tree written) :
    ¬written.HasHeadedByte ∧ tree.encode = written.assemble ∨
      written.HasHeadedByte ∧ tree.encode.length < written.assemble.length := by
  induction h with
  | canonical payload =>
      refine .inl ⟨?_, rfl⟩
      rintro ⟨b, hSmall, hScalar⟩
      obtain hEncode := List.mem_singleton.1 hScalar
      exact Scalar.encode_ne_headed hSmall (Scalar.bytes.inj hEncode).symm
  | @headed b hSmall =>
      refine .inr ⟨⟨b, hSmall, List.mem_singleton_self _⟩, ?_⟩
      have hEncode : (Tree.scalar (.bytes [b])).encode = [b] := Scalar.encode_of_small hSmall
      rw [hEncode]
      exact Nat.lt_succ_self 1
  | @list pairs hPairs ih =>
      rw [Tree.hasHeadedByte_list]
      by_cases hHeaded : ∃ item ∈ pairs.map Prod.snd, item.HasHeadedByte
      · refine .inr ⟨hHeaded, Kind.list.length_wrap_lt ?_⟩
        obtain ⟨item, hItem, hByte⟩ := hHeaded
        obtain ⟨pair, hPair, rfl⟩ := List.mem_map.1 hItem
        apply length_writeAll_lt
        · intro other hOther
          rcases ih other hOther with ⟨-, hEqual⟩ | ⟨-, hLonger⟩
          · exact Nat.le_of_eq (congrArg List.length hEqual)
          · exact Nat.le_of_lt hLonger
        · rcases ih pair hPair with ⟨hNone, -⟩ | ⟨-, hLonger⟩
          · exact absurd hByte hNone
          · exact ⟨pair, hPair, hLonger⟩
      · refine .inl ⟨hHeaded, congrArg Kind.list.wrap ?_⟩
        rw [Tree.writeAll_eq_flatMap, Tree.writeAll_eq_flatMap, List.flatMap_map, List.flatMap_map]
        apply List.flatMap_congr
        intro pair hPair
        rcases ih pair hPair with ⟨-, hEqual⟩ | ⟨hByte, -⟩
        · exact hEqual
        · exact absurd ⟨pair.2, List.mem_map_of_mem hPair, hByte⟩ hHeaded

section Unique

theorem Written.length_scalars {tree written : Tree} (h : Written tree written) :
    written.scalars.length = tree.scalars.length := by
  induction h with
  | canonical payload => rfl
  | headed hSmall => rfl
  | @list pairs hPairs ih =>
      rw [Tree.scalars, Tree.scalars, Tree.scalarsOfAll_eq_flatMap, Tree.scalarsOfAll_eq_flatMap,
        List.flatMap_map, List.flatMap_map, List.length_flatMap, List.length_flatMap,
        List.map_congr_left ih]

/-- Elements that are written alike, scalar for scalar, are the same if each of
them is. -/
theorem map_snd_eq_of_scalars_eq {pairs others : List (Tree × Tree)}
    (hPairs : ∀ pair ∈ pairs, Written pair.1 pair.2)
    (hOthers : ∀ other ∈ others, Written other.1 other.2)
    (hEach : ∀ pair ∈ pairs, ∀ {other : Tree}, Written pair.1 other →
      other.scalars = pair.2.scalars → other = pair.2)
    (hTrees : others.map Prod.fst = pairs.map Prod.fst)
    (hScalars : Tree.scalarsOfAll (others.map Prod.snd) = Tree.scalarsOfAll (pairs.map Prod.snd)) :
    others.map Prod.snd = pairs.map Prod.snd := by
  induction pairs generalizing others with
  | nil => rw [List.map_eq_nil_iff.1 hTrees]
  | cons pair pairs ih =>
      cases others with
      | nil => cases hTrees
      | cons other others =>
          obtain ⟨hPair, hPairs⟩ := List.forall_mem_cons.1 hPairs
          obtain ⟨hOther, hOthers⟩ := List.forall_mem_cons.1 hOthers
          obtain ⟨hSame, hSames⟩ := List.forall_mem_cons.1 hEach
          obtain ⟨hTree, hTrees⟩ := List.cons.inj hTrees
          rw [hTree] at hOther
          -- both ways write the same number of scalars, so the scalars divide alike
          have hLength : other.2.scalars.length = pair.2.scalars.length :=
            hOther.length_scalars.trans hPair.length_scalars.symm
          obtain ⟨hFirst, hRest⟩ := List.append_inj hScalars hLength
          rw [List.map_cons, List.map_cons, hSame hOther hFirst, ih hPairs hOthers hSames hTrees hRest]

theorem Written.exists_scalar {content : Scalar} {written : Tree}
    (h : Written (.scalar content) written) : ∃ bytes, written = .scalar bytes := by
  cases h with
  | canonical payload => exact ⟨_, rfl⟩
  | headed hSmall => exact ⟨_, rfl⟩

theorem Written.exists_list {items : List Tree} {written : Tree} (h : Written (.list items) written) :
    ∃ pairs : List (Tree × Tree), (∀ pair ∈ pairs, Written pair.1 pair.2) ∧
      items = pairs.map Prod.fst ∧ written = .list (pairs.map Prod.snd) := by
  cases h with
  | list hPairs => exact ⟨_, hPairs, rfl, rfl⟩

/-- Two ways to write a tree that write all of its scalars alike are the same. -/
theorem Written.eq_of_scalars_eq {tree written other : Tree} (h : Written tree written)
    (hOther : Written tree other) (hScalars : other.scalars = written.scalars) : other = written := by
  induction h generalizing other with
  | canonical | headed =>
      obtain ⟨bytes, rfl⟩ := hOther.exists_scalar
      rw [(List.cons.inj hScalars).1]
  | @list pairs hPairs ih =>
      obtain ⟨others, hOthers, hTrees, rfl⟩ := hOther.exists_list
      rw [map_snd_eq_of_scalars_eq hPairs hOthers (fun pair hPair => ih pair hPair) hTrees.symm hScalars]

end Unique

section Placed

variable {data header payload rest word : Bytes} {start : Nat}

theorem prefix_drop_of_append (h : word ++ rest <+: data.drop start) :
    rest <+: data.drop (start + word.length) := by
  obtain ⟨tail, hTail⟩ := h
  refine ⟨tail, ?_⟩
  rw [← List.drop_drop, ← hTail, List.append_assoc, List.drop_left]

theorem headerLengthAt_of_framed {kind : Kind} (h : Framed kind header payload)
    (hWord : header ++ payload <+: data.drop start) : headerLengthAt data start = header.length := by
  obtain ⟨tail, hTail⟩ := hWord
  rw [headerLengthAt, ← hTail, Frame.read_of_framed h]

/-- What is read from a word of the buffer is written there by just that word. -/
def WrittenBy (data : Bytes) (start : Nat) (word : Bytes) (value : Value) : Prop :=
  word <+: data.drop start →
    Written value.tree (value.written data start) ∧ (value.written data start).assemble = word

theorem exists_pairs_of_row {parts : List (Bytes × Value)} (hRow : Row (WrittenBy data) start parts)
    (hEnds : Row (fun start word value => value.position = start + word.length) start parts)
    (hWords : parts.flatMap Prod.fst <+: data.drop start) :
    ∃ pairs : List (Tree × Tree), (∀ pair ∈ pairs, Written pair.1 pair.2) ∧
      pairs.map Prod.fst = Value.trees (parts.map Prod.snd) ∧
      pairs.map Prod.snd = Value.writtenAll data start (parts.map Prod.snd) ∧
      Tree.writeAll Scalar.toBytes (pairs.map Prod.snd) = parts.flatMap Prod.fst := by
  induction parts generalizing start with
  | nil => exact ⟨[], List.forall_mem_nil _, rfl, rfl, rfl⟩
  | cons part parts ih =>
      obtain ⟨hFirst, hOthers⟩ := row_cons.1 hRow
      obtain ⟨hEnd, hOtherEnds⟩ := row_cons.1 hEnds
      rw [List.flatMap_cons] at hWords
      obtain ⟨hWritten, hWord⟩ := hFirst ((List.prefix_append _ _).trans hWords)
      obtain ⟨pairs, hPairs, hTrees, hSpellings, hBytes⟩ :=
        ih hOthers hOtherEnds (prefix_drop_of_append hWords)
      refine ⟨(part.2.tree, part.2.written data start) :: pairs,
        List.forall_mem_cons.2 ⟨hWritten, hPairs⟩, ?_, ?_, ?_⟩
      · rw [List.map_cons, hTrees]
        rfl
      · rw [List.map_cons, hSpellings, ← hEnd]
        rfl
      · rw [List.map_cons, Tree.writeAll, hBytes, List.flatMap_cons]
        exact congrArg (· ++ _) hWord

theorem Placed.writtenBy {depth : Nat} {value : Value} (h : Placed depth start word value) :
    WrittenBy data start word value := by
  induction h with
  | @scalar depth start header payload hFramed =>
      intro hWord
      have hRead : (data.drop start).take (start + (header ++ payload).length - start) =
          header ++ payload := by
        rw [Nat.add_sub_cancel_left]
        exact (List.prefix_iff_eq_take.1 hWord).symm
      rw [Value.written, hRead]
      exact ⟨.of_framed hFramed, rfl⟩
  | @list depth start header parts hFramed hParts ih =>
      intro hWord
      have hEnds := hParts.imp fun _ _ _ hPlaced => hPlaced.position_eq
      obtain ⟨pairs, hPairs, hTrees, hSpellings, hBytes⟩ :=
        exists_pairs_of_row ih hEnds (prefix_drop_of_append hWord)
      rw [Value.tree, Value.written, headerLengthAt_of_framed hFramed hWord, ← hTrees, ← hSpellings]
      refine ⟨.list hPairs, ?_⟩
      change Kind.list.wrap (Tree.writeAll Scalar.toBytes (pairs.map Prod.snd)) = _
      rcases hFramed.header_eq with hHeader | ⟨hKind, -⟩
      · rw [hBytes, Kind.wrap, ← hHeader]
      · cases hKind

end Placed

section Canonical

variable {depth : Nat} {word : Bytes} {tree : Tree}

theorem Spells.depth_le (h : Spells depth word tree) : tree.depth ≤ depth := by
  induction h with
  | scalar hFramed => exact Nat.zero_le _
  | list hFramed hParts ih =>
      apply Nat.succ_le_succ
      apply Tree.depthOfAll_le
      intro item hItem
      obtain ⟨part, hPart, rfl⟩ := List.mem_map.1 hItem
      exact ih part hPart

theorem Spells.isBinary (h : Spells depth word tree) : tree.IsBinary := by
  induction h with
  | @scalar depth header payload hFramed =>
      intro content hContent
      exact ⟨payload, List.mem_singleton.1 hContent⟩
  | list hFramed hParts ih =>
      intro content hContent
      rw [Tree.scalars, Tree.scalarsOfAll_eq_flatMap, List.flatMap_map] at hContent
      obtain ⟨part, hPart, hContent⟩ := List.mem_flatMap.1 hContent
      exact ih part hPart content hContent

/-- What is no longer than a word of the format has a payload that a header can
stand before. -/
theorem Spells.length_payload_lt (h : Spells depth word tree)
    (hLength : tree.encode.length ≤ word.length) : tree.payload.length < 256 ^ 8 := by
  cases h with
  | scalar hFramed => exact hFramed.length_lt
  | @list depth header parts hFramed hParts =>
      rcases hFramed.header_eq with rfl | ⟨hKind, -⟩
      · apply Nat.lt_of_not_le
        intro hLong
        have hLonger := Kind.list.length_wrap_lt (Nat.lt_of_lt_of_le hFramed.length_lt hLong)
        exact Nat.not_lt_of_le hLength hLonger
      · cases hKind

end Canonical

variable {data : Bytes} {position : Nat} {value : Value}

/-- The bytes of a buffer from which a value was decoded at an offset. -/
def Value.consumed (data : Bytes) (start : Nat) (value : Value) : Bytes :=
  (data.drop start).take (value.position - start)

theorem written_of_decode (h : decode data position = .ok value) :
    Spells maxNesting (value.consumed data position) value.tree ∧
      (value.consumed data position).length = value.position - position ∧
      Written value.tree (value.written data position) ∧
      (value.written data position).assemble = value.consumed data position := by
  obtain ⟨word, hWord, hPlaced⟩ := exists_placed_of_decode h
  have hLength : value.position - position = word.length := by
    rw [hPlaced.position_eq, Nat.add_sub_cancel_left]
  have hConsumed : value.consumed data position = word := by
    rw [Value.consumed, hLength]
    exact (List.prefix_iff_eq_take.1 hWord).symm
  rw [hConsumed]
  exact ⟨hPlaced.spells, hLength.symm, hPlaced.writtenBy hWord⟩

/-- What is decoded decodes again from its canonical encoding, which is no longer
than the bytes that were consumed. It is those bytes if and only if no byte below
`0x80` was written behind a header anywhere in them, and shorter otherwise. All
else is fixed: scalars are written canonically or so, the headers of lists are
the shortest, and two encodings of one tree that write all scalars alike are the
same. -/
theorem canonical_iff_no_headed_byte (h : decode data position = .ok value) :
    let encoding := value.tree.encode
    let consumed := value.consumed data position
    let written := value.written data position
    (∃ again, decode encoding 0 = .ok again ∧ again.tree = value.tree) ∧
    encoding.length ≤ value.position - position ∧
    (encoding = consumed ↔ ¬written.HasHeadedByte) ∧
    (written.HasHeadedByte → encoding.length < value.position - position) ∧
    (Written value.tree written ∧ written.assemble = consumed) ∧
    ∀ (data' : Bytes) (position' : Nat) (value' : Value), decode data' position' = .ok value' →
      value'.tree = value.tree → (value'.written data' position').scalars = written.scalars →
        value'.consumed data' position' = consumed := by
  intro encoding consumed written
  obtain ⟨hSpells, hLength, hWritten, hAssemble⟩ := written_of_decode h
  have hCases := hWritten.canonical_or_longer
  rw [hAssemble] at hCases
  have hShorter : encoding.length ≤ consumed.length := by
    rcases hCases with ⟨-, hEqual⟩ | ⟨-, hLonger⟩
    · exact Nat.le_of_eq (congrArg List.length hEqual)
    · exact Nat.le_of_lt hLonger
  refine ⟨?_, hLength ▸ hShorter, ?_, ?_, ⟨hWritten, hAssemble⟩, ?_⟩
  · have hPlaced := Tree.placed_encode hSpells.depth_le (hSpells.length_payload_lt hShorter) 0
    exact ⟨_, decode_of_placed (List.prefix_refl _) hPlaced, Tree.tree_placeAt hSpells.isBinary 0⟩
  · rcases hCases with ⟨hNone, hEqual⟩ | ⟨hByte, hLonger⟩
    · exact ⟨fun _ => hNone, fun _ => hEqual⟩
    · refine ⟨fun hEqual => ?_, fun hNone => absurd hByte hNone⟩
      exact absurd (congrArg List.length hEqual) (Nat.ne_of_lt hLonger)
  · intro hByte
    rcases hCases with ⟨hNone, -⟩ | ⟨-, hLonger⟩
    · exact absurd hByte hNone
    · exact hLength ▸ hLonger
  · intro data' position' value' h' hTree hScalars
    obtain ⟨-, -, hWritten', hAssemble'⟩ := written_of_decode h'
    rw [hTree] at hWritten'
    rw [← hAssemble', hWritten.eq_of_scalars_eq hWritten' hScalars, hAssemble]

/-- A list whose payload drops from 56 bytes to 55 when its first byte loses the
header, so that the list's own header becomes shorter too. -/
theorem canonical_iff_no_headed_byte_shrinking :
    let payload : Bytes := List.replicate 53 0xaa
    let data : Bytes := 0xff :: 0xf8 :: 0x38 :: 0x81 :: 0x05 :: 0xb5 :: payload
    let value : Value := .list 59 [.scalar 5 (.bytes [0x05]), .scalar 59 (.bytes payload)]
    decode data 1 = .ok value ∧
      value.tree.encode = 0xf7 :: 0x05 :: 0xb5 :: payload ∧
      (∃ again, decode value.tree.encode 0 = .ok again ∧ again.tree = value.tree) ∧
      value.tree.encode.length < 58 ∧ value.tree.encode ≠ value.consumed data 1 := by
  intro payload data value
  have hDecode : decode data 1 = .ok value := by cbv
  have hEncode : value.tree.encode = 0xf7 :: 0x05 :: 0xb5 :: payload := by cbv
  have hScalars : (value.written data 1).scalars = [.bytes [0x81, 0x05], .bytes (0xb5 :: payload)] := by
    cbv
  have hByte : (value.written data 1).HasHeadedByte := by
    refine ⟨0x05, by decide, ?_⟩
    rw [hScalars]
    exact List.mem_cons_self ..
  obtain ⟨hAgain, -, hEqual, hShorter, -⟩ := canonical_iff_no_headed_byte hDecode
  exact ⟨hDecode, hEncode, hAgain, hShorter hByte, fun hSame => hEqual.1 hSame hByte⟩

end NodeStore.Rlp
