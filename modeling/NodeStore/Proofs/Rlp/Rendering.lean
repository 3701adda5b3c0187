import NodeStore.Proofs.Rlp.Blame

/-!
The text of a value. What it prints is what its leaves print, from left to right:
neither offsets nor the lists around the leaves leave a trace. Main statement: the
text of a decoded value is the hexadecimal form of the payloads, in the order in
which they stand in the buffer.
-/

namespace NodeStore.Rlp

section Value

/-- Elements that are each appended to what is there are all appended. -/
theorem Value.writeAll_eq {items : List Value}
    (h : ∀ item ∈ items, ∀ out,
      item.write out = out ++ String.join (item.tree.scalars.map Scalar.render))
    (out : String) :
    writeAll out items = out ++ String.join ((Tree.scalarsOfAll (trees items)).map Scalar.render) := by
  induction items generalizing out with
  | nil => exact String.append_empty.symm
  | cons item items ih =>
      obtain ⟨hFirst, hOthers⟩ := List.forall_mem_cons.1 h
      rw [writeAll, hFirst, ih hOthers, trees, Tree.scalarsOfAll, List.map_append,
        String.join_append, String.append_assoc]

/-- The leaves of a value are appended, from left to right. -/
theorem Value.write_eq (value : Value) (out : String) :
    value.write out = out ++ String.join (value.tree.scalars.map Scalar.render) := by
  induction value generalizing out with
  | scalar position content =>
      rw [write, tree, Tree.scalars, List.map_singleton, String.join_cons, String.join_nil,
        String.append_empty]
  | list position items ih => exact writeAll_eq ih out

theorem Value.render_eq (value : Value) :
    value.render = String.join (value.tree.scalars.map Scalar.render) := by
  rw [render, write_eq, String.empty_append]

/-- Leaves that are all byte strings print as one. -/
theorem Tree.IsBinary.join_render {tree : Tree} (h : tree.IsBinary) :
    String.join (tree.scalars.map Scalar.render) = Hex.encode (tree.scalars.flatMap Scalar.toBytes) := by
  unfold IsBinary at h
  generalize tree.scalars = contents at h ⊢
  induction contents with
  | nil => rfl
  | cons content contents ih =>
      obtain ⟨⟨payload, rfl⟩, hOthers⟩ := List.forall_mem_cons.1 h
      rw [List.map_cons, String.join_cons, ih hOthers, List.flatMap_cons, Hex.encode_append]
      rfl

end Value

/-- Spans between two offsets, each of which starts no earlier than the one before it
ends. -/
def InOrder (start : Nat) : (spans : List (Nat × Nat)) → (stop : Nat) → Prop
  | [], stop => start ≤ stop
  | span :: spans, stop => start ≤ span.1 ∧ span.1 ≤ span.2 ∧ InOrder span.2 spans stop

theorem InOrder.append {start middle stop : Nat} {spans others : List (Nat × Nat)}
    (h : InOrder start spans middle) (hOthers : InOrder middle others stop) :
    InOrder start (spans ++ others) stop := by
  induction spans generalizing start with
  | nil =>
      cases others with
      | nil => exact Nat.le_trans h hOthers
      | cons other others => exact ⟨Nat.le_trans h hOthers.1, hOthers.2⟩
  | cons span spans ih => exact ⟨h.1, h.2.1, ih h.2.2⟩

section Placed

variable {data : Bytes} {depth start : Nat} {word : Bytes} {value : Value}

theorem visible_of_prefix {payload : Bytes} (h : payload <+: data.drop start) :
    visible data start (start + payload.length) = payload := by
  rw [visible, List.drop_take, Nat.add_sub_cancel_left]
  exact (List.prefix_iff_eq_take.1 h).symm

/-- A word of the buffer whose leaves are spans of the buffer, in order. -/
def LeavesInOrder (data : Bytes) (start : Nat) (word : Bytes) (value : Value) : Prop :=
  word <+: data.drop start → ∃ spans, InOrder start spans (start + word.length) ∧
    value.tree.scalars = spans.map fun span => .bytes (visible data span.1 span.2)

theorem leavesInOrder_of_row {parts : List (Bytes × Value)}
    (hRow : Row (LeavesInOrder data) start parts)
    (hWords : parts.flatMap Prod.fst <+: data.drop start) :
    ∃ spans, InOrder start spans (start + (parts.flatMap Prod.fst).length) ∧
      Tree.scalarsOfAll (Value.trees (parts.map Prod.snd)) =
        spans.map fun span => .bytes (visible data span.1 span.2) := by
  induction parts generalizing start with
  | nil => exact ⟨[], Nat.le_refl _, rfl⟩
  | cons part parts ih =>
      obtain ⟨hFirst, hOthers⟩ := row_cons.1 hRow
      rw [List.flatMap_cons] at hWords ⊢
      obtain ⟨spans, hSpans, hLeaves⟩ := hFirst ((List.prefix_append _ _).trans hWords)
      obtain ⟨others, hMore, hOtherLeaves⟩ := ih hOthers (prefix_drop_of_append hWords)
      refine ⟨spans ++ others, ?_, ?_⟩
      · rw [List.length_append, ← Nat.add_assoc]
        exact hSpans.append hMore
      · rw [List.map_cons, Value.trees, Tree.scalarsOfAll, hLeaves, hOtherLeaves, List.map_append]

theorem Placed.leavesInOrder (h : Placed depth start word value) :
    LeavesInOrder data start word value := by
  induction h with
  | @scalar depth start header payload hFramed =>
      intro hWord
      have hPayload := visible_of_prefix (prefix_drop_of_append hWord)
      refine ⟨[(start + header.length, start + header.length + payload.length)], ?_, ?_⟩
      · rw [List.length_append]
        exact ⟨Nat.le_add_right _ _, Nat.le_add_right _ _, Nat.le_of_eq (Nat.add_assoc ..)⟩
      · rw [List.map_singleton, hPayload]
        rfl
  | @list depth start header parts hFramed hParts ih =>
      intro hWord
      obtain ⟨spans, hSpans, hLeaves⟩ := leavesInOrder_of_row ih (prefix_drop_of_append hWord)
      refine ⟨spans, ?_, hLeaves⟩
      rw [List.length_append, ← Nat.add_assoc]
      have hHeader : InOrder start [] (start + header.length) := Nat.le_add_right _ _
      exact hHeader.append hSpans

end Placed

/-- A value prints as its leaves do, one after the other from left to right: text as
it is, bytes as two lower-case hexadecimal digits each. This is appended to what has
been printed before. So values with the same leaves print alike, wherever their nodes
end and however the leaves are put into lists. The text of a decoded value, read back
as hexadecimal, is all the payloads, each of which is a span of the buffer, in the
order in which they stand there. -/
theorem text_is_leaves_in_order :
    (∀ value : Value,
      value.render = String.join (value.tree.scalars.map Scalar.render) ∧
      toString value = value.render ∧ ∀ out, value.write out = out ++ value.render) ∧
    (∀ content, (Scalar.text content).render = content) ∧
    (∀ content, let digits := (Scalar.bytes content).render
      digits.length = 2 * content.length ∧ (∀ c ∈ digits.toList, c ∈ "0123456789abcdef".toList) ∧
      Hex.decode? digits = some content) ∧
    (∀ value other : Value, other.tree.scalars = value.tree.scalars → other.render = value.render) ∧
    ∀ data position value, decode data position = .ok value →
      Hex.decode? value.render = some (value.tree.scalars.flatMap Scalar.toBytes) ∧
      ∃ spans, InOrder position spans value.position ∧
        value.tree.scalars = spans.map fun span => .bytes (visible data span.1 span.2) := by
  refine ⟨?_, fun content => rfl, ?_, ?_, ?_⟩
  · intro value
    refine ⟨value.render_eq, rfl, fun out => ?_⟩
    rw [value.render_eq, value.write_eq]
  · intro content digits
    exact ⟨Hex.length_encode content, fun c hDigit => Hex.mem_of_mem_encode hDigit,
      Hex.decode?_encode content⟩
  · intro value other hLeaves
    rw [value.render_eq, other.render_eq, hLeaves]
  · intro data position value hDecode
    obtain ⟨word, hWord, hPlaced⟩ := exists_placed_of_decode hDecode
    refine ⟨?_, ?_⟩
    · rw [value.render_eq, hPlaced.spells.isBinary.join_render, Hex.decode?_encode]
    · rw [hPlaced.position_eq]
      exact hPlaced.leavesInOrder hWord

/-- A byte and a list of two strings, one of them empty, read behind a byte that is
skipped, and text beside bytes in lists that are put together in another way. -/
theorem text_is_leaves_in_order_mixed :
    let data : Bytes := [0xff, 0xc5, 0x05, 0xc3, 0x81, 0xab, 0x80, 0x00]
    let value : Value := .list 7 [.scalar 3 (.bytes [0x05]),
      .list 7 [.scalar 6 (.bytes [0xab]), .scalar 7 (.bytes [])]]
    let mixed : Value := .list 0 [.list 1 [], .scalar 5 (.text "é"), .scalar 2 (.bytes [0x0a])]
    let grouped : Value := .list 3 [.scalar 4 (.text "é"), .list 9 [.scalar 9 (.bytes [0x0a])]]
    decode data 1 = .ok value ∧ Hex.decode? value.render = some [0x05, 0xab] ∧
      grouped.tree.scalars = mixed.tree.scalars ∧ grouped.render = mixed.render := by
  intro data value mixed grouped
  obtain ⟨-, -, -, hAlike, hDecoded⟩ := text_is_leaves_in_order
  have hDecode : decode data 1 = .ok value := by cbv
  have hLeaves : grouped.tree.scalars = mixed.tree.scalars := rfl
  exact ⟨hDecode, (hDecoded data 1 value hDecode).1, hLeaves, hAlike mixed grouped hLeaves⟩

end NodeStore.Rlp
