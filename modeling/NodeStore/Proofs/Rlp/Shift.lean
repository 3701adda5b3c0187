import NodeStore.Proofs.Rlp.Recognition
import NodeStore.Rlp.Stream

/-!
The same bytes further down in a buffer. What is decoded there is the same, with
every offset moved along, and so is what goes wrong. Bytes before the start play
no part.
-/

namespace NodeStore

/-- The failure in a buffer with `count` more bytes at its front. -/
def DecodeError.shift (count : Nat) : DecodeError → DecodeError
  | .outOfBounds position length => .outOfBounds (count + position) (count + length)
  | .malformed position reason => .malformed (count + position) reason

namespace Rlp

mutual

/-- The value with the offset of every node moved on by `count` bytes. -/
def Value.shift (count : Nat) : Value → Value
  | .scalar position content => .scalar (count + position) content
  | .list position items => .list (count + position) (shiftAll count items)

def Value.shiftAll (count : Nat) : List Value → List Value
  | [] => []
  | value :: values => value.shift count :: shiftAll count values

end

theorem Value.shiftAll_eq_map (count : Nat) (values : List Value) :
    shiftAll count values = values.map (shift count) := by
  induction values with
  | nil => rfl
  | cons value values ih => rw [shiftAll, ih, List.map_cons]

mutual

/-- Where the nodes of a value end, each before the nodes inside it. -/
def Value.offsets : Value → List Nat
  | .scalar position _ => [position]
  | .list position items => position :: offsetsAll items

def Value.offsetsAll : List Value → List Nat
  | [] => []
  | value :: values => value.offsets ++ offsetsAll values

end

theorem Value.offsetsAll_eq_flatMap (values : List Value) : offsetsAll values = values.flatMap offsets := by
  induction values with
  | nil => rfl
  | cons value values ih => rw [offsetsAll, ih, List.flatMap_cons]

theorem Value.tree_shift (count : Nat) (value : Value) : (value.shift count).tree = value.tree := by
  induction value with
  | scalar position content => rfl
  | list position items ih =>
      rw [shift, tree, tree, trees_eq_map, trees_eq_map, shiftAll_eq_map, List.map_map]
      exact congrArg Tree.list (List.map_congr_left ih)

/-- Every node moves by the same number of bytes. -/
theorem Value.offsets_shift (count : Nat) (value : Value) :
    (value.shift count).offsets = value.offsets.map (count + ·) := by
  induction value with
  | scalar position content => rfl
  | list position items ih =>
      rw [shift, offsets, offsets, List.map_cons, offsetsAll_eq_flatMap, offsetsAll_eq_flatMap,
        shiftAll_eq_map, List.flatMap_map, List.map_flatMap, List.flatMap_def, List.flatMap_def,
        List.map_congr_left ih]

theorem Value.position_shift (count : Nat) (value : Value) :
    (value.shift count).position = count + value.position := by
  cases value <;> rfl

/-- A result as it is with `count` more bytes at the front of the buffer. -/
def shiftResult {α : Type} (count : Nat) (shift : α → α) : Except DecodeError α → Except DecodeError α
  | .ok a => .ok (shift a)
  | .error e => .error (e.shift count)

/-- Decoding item after item moves along with the decoder for one item. -/
theorem decodeItems_shift {decode : Nat → Frame → Except DecodeError Value} (count : Nat)
    (hDecode : ∀ position frame,
      decode (count + position) frame = shiftResult count (Value.shift count) (decode position frame))
    (position : Nat) (bytes : Bytes) :
    decodeItems decode (count + position) bytes =
      shiftResult count (Value.shiftAll count) (decodeItems decode position bytes) := by
  fun_induction decodeItems decode position bytes with
  | case1 position bytes hEmpty =>
      rw [List.isEmpty_iff.1 hEmpty, decodeItems_nil]
      rfl
  | case2 position bytes hBytes flaw hRead =>
      exact decodeItems_of_flaw (fun hNil => hBytes (List.isEmpty_iff.2 hNil)) hRead
  | case3 position bytes hBytes frame hRead e hFirst =>
      rw [decodeItems_of_frame hRead, hDecode, hFirst]
      rfl
  | case4 position bytes hBytes frame hRead first hFirst e hOthers ih =>
      rw [decodeItems_of_frame hRead, hDecode, hFirst, Nat.add_assoc, ih, hOthers]
      rfl
  | case5 position bytes hBytes frame hRead first hFirst others hOthers ih =>
      rw [decodeItems_of_frame hRead, hDecode, hFirst, Nat.add_assoc, ih, hOthers]
      rfl

theorem Frame.decode_shift (count levels position : Nat) (frame : Frame) :
    frame.decode levels (count + position) =
      shiftResult count (Value.shift count) (frame.decode levels position) := by
  induction levels generalizing position frame with
  | zero =>
      rcases frame with ⟨_ | _, headerLength, payload, rest⟩
      · simp only [Frame.decode, shiftResult, Value.shift, Nat.add_assoc]
      · rfl
  | succ levels ih =>
      rcases frame with ⟨_ | _, headerLength, payload, rest⟩
      · simp only [Frame.decode, shiftResult, Value.shift, Nat.add_assoc]
      · simp only [Frame.decode, Nat.add_assoc, decodeItems_shift count ih]
        cases decodeItems (Frame.decode levels) (position + headerLength) payload with
        | error e => rfl
        | ok items => rfl

/-- Decoding behind some bytes is decoding without them, moved along. -/
theorem decode_append_left (front data : Bytes) (position : Nat) :
    decode (front ++ data) (front.length + position) =
      shiftResult front.length (Value.shift front.length) (decode data position) := by
  simp only [decode, List.length_append, Nat.add_le_add_iff_left, List.drop_length_add_append]
  split
  · rfl
  · cases Frame.read (data.drop position) with
    | error flaw => rfl
    | ok frame => exact frame.decode_shift front.length maxNesting position

/-- What is left of a result without its offsets: the tree, or the reason why an item
is malformed, or nothing if there is no item. -/
def withoutOffsets : Except DecodeError Value → Except (Option String) Tree
  | .ok value => .ok value.tree
  | .error (.malformed _ reason) => .error (some reason)
  | .error (.outOfBounds _ _) => .error none

theorem withoutOffsets_shift (count : Nat) (result : Except DecodeError Value) :
    withoutOffsets (shiftResult count (Value.shift count) result) = withoutOffsets result := by
  rcases result with ⟨_ | _⟩ | value
  · rfl
  · rfl
  · exact congrArg Except.ok (value.tree_shift count)

/-- Behind any bytes the same is decoded as without them, with the offset of every
node moved along, or the same is wrong at the offset that is moved along; where there
is no item, the length of the buffer moves along too. Which bytes stand before the
offset makes no difference to the tree that is decoded, nor to the reason why none is. -/
theorem decode_moves_with_its_bytes (front data : Bytes) (position : Nat) :
    (∀ value, decode data position = .ok value →
      ∃ moved, decode (front ++ data) (front.length + position) = .ok moved ∧
        moved.tree = value.tree ∧ moved.offsets = value.offsets.map (front.length + ·)) ∧
    (∀ offset reason, decode data position = .error (.malformed offset reason) →
      decode (front ++ data) (front.length + position) =
        .error (.malformed (front.length + offset) reason)) ∧
    (∀ offset length, decode data position = .error (.outOfBounds offset length) →
      decode (front ++ data) (front.length + position) =
        .error (.outOfBounds (front.length + offset) (front.length + length))) ∧
    ∀ other : Bytes,
      withoutOffsets (decode (other ++ data) (other.length + position)) =
        withoutOffsets (decode (front ++ data) (front.length + position)) := by
  have hMoves := decode_append_left front data position
  refine ⟨?_, ?_, ?_, ?_⟩
  · intro value hValue
    rw [hValue] at hMoves
    exact ⟨_, hMoves, value.tree_shift front.length, value.offsets_shift front.length⟩
  · intro offset reason hError
    rwa [hError] at hMoves
  · intro offset length hError
    rwa [hError] at hMoves
  · intro other
    rw [hMoves, decode_append_left other data position, withoutOffsets_shift, withoutOffsets_shift]

/-- A list in a list behind two bytes, and a list whose second element is cut off. -/
theorem decode_moves_with_its_bytes_nested :
    let front : Bytes := [0xff, 0x00]
    (∃ moved, decode (front ++ [0x07, 0xc2, 0xc1, 0x05]) (2 + 1) = .ok moved ∧
      moved.tree = .list [.list [.scalar (.bytes [0x05])]] ∧ moved.offsets = [6, 6, 6]) ∧
    decode (front ++ [0x07, 0xc2, 0x05, 0x82]) (2 + 1) =
      .error (.malformed 5 Flaw.tooShort.reason) ∧
    decode (front ++ [0x07]) (2 + 1) = .error (.outOfBounds 3 3) := by
  intro front
  have hNested : decode [0x07, 0xc2, 0xc1, 0x05] 1 =
      .ok (.list 4 [.list 4 [.scalar 4 (.bytes [0x05])]]) := by cbv
  have hCut : decode [0x07, 0xc2, 0x05, 0x82] 1 = .error (.malformed 3 Flaw.tooShort.reason) := by
    simp [decode, Frame.read, Lead.ofByte, Frame.cut, Bytes.split?, Frame.decode, maxNesting,
      decodeItems, Frame.length]
  have hOutside : decode [0x07] 1 = .error (.outOfBounds 1 1) := by cbv
  refine ⟨?_, ?_, ?_⟩
  · exact (decode_moves_with_its_bytes front _ 1).1 _ hNested
  · exact (decode_moves_with_its_bytes front _ 1).2.1 _ _ hCut
  · exact (decode_moves_with_its_bytes front _ 1).2.2.1 _ _ hOutside

/-- A word of the format can be moved along with all its offsets. -/
theorem Placed.shift {depth start : Nat} {word : Bytes} {value : Value}
    (h : Placed depth start word value) (count : Nat) :
    Placed depth (count + start) word (value.shift count) := by
  obtain ⟨kind, header, payload, hFramed, hWord, hDecode⟩ := accepts_of_placed h
  refine placed_of_accepts ⟨kind, header, payload, hFramed, hWord, fun rest => ?_⟩
  rw [Frame.decode_shift, hDecode]
  rfl

namespace Stream

/-- The sequence as it is read behind `count` more bytes. -/
def shift (count : Nat) (stream : Stream) : Stream :=
  ⟨Value.shiftAll count stream.items, stream.stop.shift count⟩

end Stream

theorem decodeStream_of_error {data : Bytes} {position : Nat} {e : DecodeError}
    (h : decode data position = .error e) : decodeStream data position = ⟨[], e⟩ := by
  rw [decodeStream]
  split
  · next other hOther => rw [Except.error.inj (hOther.symm.trans h)]
  · next value hValue => cases hValue.symm.trans h

theorem decodeStream_of_ok {data : Bytes} {position : Nat} {value : Value}
    (h : decode data position = .ok value) :
    decodeStream data position =
      ⟨value :: (decodeStream data value.position).items, (decodeStream data value.position).stop⟩ := by
  rw [decodeStream]
  split
  · next e hError => cases hError.symm.trans h
  · next other hOther => rw [Except.ok.inj (hOther.symm.trans h)]

theorem decodeStream_append_left (front data : Bytes) (position : Nat) :
    decodeStream (front ++ data) (front.length + position) =
      (decodeStream data position).shift front.length := by
  have hDecode := decode_append_left front data position
  fun_induction decodeStream data position with
  | case1 position e hError =>
      rw [hError] at hDecode
      exact decodeStream_of_error hDecode
  | case2 position value hValue later ih =>
      rw [hValue] at hDecode
      rw [decodeStream_of_ok hDecode, Value.position_shift, ih (decode_append_left front data _)]
      rfl

end Rlp

end NodeStore
