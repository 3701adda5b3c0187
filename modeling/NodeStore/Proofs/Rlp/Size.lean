import NodeStore.Proofs.Rlp.Nodes
import NodeStore.Proofs.Rlp.Rendering

/-!
How large a decoded value can be. Each byte that is consumed belongs to the header
of one node or to the payload of one scalar, and there is such a byte for every
node. Main statement: neither the nodes of a value, nor its payloads, nor its text
outgrow the bytes it was decoded from.
-/

namespace NodeStore.Rlp

namespace Tree

mutual

/-- How many nodes a tree has, lists and scalars alike. -/
def size : Tree → Nat
  | .scalar _ => 1
  | .list items => sizeOfAll items + 1

def sizeOfAll : List Tree → Nat
  | [] => 0
  | item :: items => item.size + sizeOfAll items

end

/-- How many bytes the scalars of a tree hold. -/
def payloadBytes (tree : Tree) : Nat :=
  (tree.scalars.map fun content => content.toBytes.length).sum

end Tree

/-- How many bytes stand in the headers of some nodes of the buffer. -/
def headerBytes (data : Bytes) (nodes : List (Nat × Value)) : Nat :=
  (nodes.map fun node => headerLengthAt data node.1).sum

section Size

variable {data : Bytes}

theorem Value.length_nodesAll {items : List Value}
    (h : ∀ item ∈ items, ∀ start, (item.nodes data start).length = item.tree.size) (start : Nat) :
    (nodesAll data start items).length = Tree.sizeOfAll (trees items) := by
  induction items generalizing start with
  | nil => rfl
  | cons item items ih =>
      obtain ⟨hFirst, hOthers⟩ := List.forall_mem_cons.1 h
      rw [nodesAll, List.length_append, hFirst, ih hOthers, trees, Tree.sizeOfAll]

theorem Value.length_nodes (value : Value) (start : Nat) :
    (value.nodes data start).length = value.tree.size := by
  induction value generalizing start with
  | scalar position content => rfl
  | list position items ih =>
      rw [nodes, List.length_cons, length_nodesAll ih, tree, Tree.size]

theorem Tree.sizeOfAll_le {parts : List (Bytes × Tree)}
    (h : ∀ part ∈ parts, part.2.size ≤ part.1.length) :
    sizeOfAll (parts.map Prod.snd) ≤ (parts.flatMap Prod.fst).length := by
  induction parts with
  | nil => exact Nat.le_refl 0
  | cons part parts ih =>
      obtain ⟨hFirst, hOthers⟩ := List.forall_mem_cons.1 h
      rw [List.map_cons, sizeOfAll, List.flatMap_cons, List.length_append]
      exact Nat.add_le_add hFirst (ih hOthers)

/-- A list has a header, and a scalar without one has a payload. -/
theorem Spells.size_le {depth : Nat} {word : Bytes} {tree : Tree} (h : Spells depth word tree) :
    tree.size ≤ word.length := by
  induction h with
  | scalar hFramed => exact hFramed.length_pos
  | @list depth header parts hFramed hParts ih =>
      rw [Tree.size, List.length_append, Nat.add_comm]
      exact Nat.add_le_add hFramed.header_pos (Tree.sizeOfAll_le ih)

end Size

section Accounting

variable {data : Bytes} {depth start : Nat} {word : Bytes} {value : Value}

theorem headerBytes_cons (node : Nat × Value) (nodes : List (Nat × Value)) :
    headerBytes data (node :: nodes) = headerLengthAt data node.1 + headerBytes data nodes := by
  rw [headerBytes, List.map_cons, List.sum_cons, headerBytes]

theorem headerBytes_append (nodes others : List (Nat × Value)) :
    headerBytes data (nodes ++ others) = headerBytes data nodes + headerBytes data others := by
  rw [headerBytes, List.map_append, List.sum_append, headerBytes, headerBytes]

theorem Tree.payloadBytes_list_cons (item : Tree) (items : List Tree) :
    (list (item :: items)).payloadBytes = item.payloadBytes + (list items).payloadBytes := by
  rw [payloadBytes, scalars, scalarsOfAll, List.map_append, List.sum_append]
  rfl

/-- A word whose bytes are all accounted for if it stands in the buffer. -/
def Accounted (data : Bytes) (start : Nat) (word : Bytes) (value : Value) : Prop :=
  word <+: data.drop start →
    headerBytes data (value.nodes data start) + value.tree.payloadBytes = word.length

theorem accounted_of_row {parts : List (Bytes × Value)} (hRow : Row (Accounted data) start parts)
    (hEnds : Row (fun start word value => value.position = start + word.length) start parts)
    (hWords : parts.flatMap Prod.fst <+: data.drop start) :
    headerBytes data (Value.nodesAll data start (parts.map Prod.snd)) +
        (Tree.list (Value.trees (parts.map Prod.snd))).payloadBytes =
      (parts.flatMap Prod.fst).length := by
  induction parts generalizing start with
  | nil => rfl
  | cons part parts ih =>
      obtain ⟨hFirst, hOthers⟩ := row_cons.1 hRow
      obtain ⟨hEnd, hOtherEnds⟩ := row_cons.1 hEnds
      rw [List.flatMap_cons] at hWords ⊢
      have hPart := hFirst ((List.prefix_append _ _).trans hWords)
      have hParts := ih hOthers hOtherEnds (prefix_drop_of_append hWords)
      rw [List.map_cons, Value.nodesAll, hEnd, headerBytes_append, Value.trees,
        Tree.payloadBytes_list_cons, Nat.add_add_add_comm, hPart, hParts, List.length_append]

/-- A byte is in the header of one node only: the header of a list ends where its first
element starts, and the elements lie end to end. -/
theorem Placed.accounted (h : Placed depth start word value) : Accounted data start word value := by
  induction h with
  | @scalar depth start header payload hFramed =>
      intro hWord
      rw [Value.nodes, headerBytes_cons, headerLengthAt_of_framed hFramed hWord, List.length_append]
      rfl
  | @list depth start header parts hFramed hParts ih =>
      intro hWord
      have hEnds := hParts.imp fun _ _ _ hPlaced => hPlaced.position_eq
      rw [Value.nodes, headerBytes_cons, headerLengthAt_of_framed hFramed hWord, Value.tree,
        Nat.add_assoc, accounted_of_row ih hEnds (prefix_drop_of_append hWord), List.length_append]

end Accounting

/-- Two digits are printed for each byte of the payloads. -/
theorem Value.length_render {value : Value} (h : value.tree.IsBinary) :
    value.render.length = 2 * value.tree.payloadBytes := by
  rw [render_eq, h.join_render, Hex.length_encode, List.length_flatMap, Tree.payloadBytes]

section Decode

variable {data : Bytes} {position : Nat} {value : Value}

/-- A decoded value has at most as many nodes, and holds at most as many bytes in its
scalars, as bytes were consumed to decode it: these are the headers of its nodes and
the payloads of its scalars, and nothing else. At most 1024 of its lists lie inside
one another, and its text has two characters for each byte of the payloads. -/
theorem value_no_larger_than_its_bytes (h : decode data position = .ok value) :
    let count := value.position - position
    position + count = value.position ∧
      (value.nodes data position).length = value.tree.size ∧ value.tree.size ≤ count ∧
      value.tree.payloadBytes ≤ count ∧
      count = headerBytes data (value.nodes data position) + value.tree.payloadBytes ∧
      value.tree.depth ≤ 1024 ∧
      value.render.length = 2 * value.tree.payloadBytes ∧ value.render.length ≤ 2 * count := by
  intro count
  obtain ⟨word, hWord, hPlaced⟩ := exists_placed_of_decode h
  have hCount : count = word.length := by
    change value.position - position = word.length
    rw [hPlaced.position_eq, Nat.add_sub_cancel_left]
  have hAccounted := hPlaced.accounted hWord
  have hPayload : value.tree.payloadBytes ≤ word.length := hAccounted ▸ Nat.le_add_left _ _
  have hRender := Value.length_render hPlaced.spells.isBinary
  rw [hCount]
  refine ⟨hPlaced.position_eq.symm, value.length_nodes position, hPlaced.spells.size_le, hPayload,
    hAccounted.symm, hPlaced.spells.depth_le, hRender, ?_⟩
  rw [hRender]
  exact Nat.mul_le_mul_left 2 hPayload

/-- Behind a byte that is skipped, five nodes on six bytes: a string with a header and
one without, an empty list in the list around them, and an empty string. -/
theorem value_no_larger_than_its_bytes_nested :
    let data : Bytes := [0xff, 0xc5, 0x81, 0xab, 0x05, 0xc0, 0x80, 0x00]
    let value : Value := .list 7 [.scalar 4 (.bytes [0xab]), .scalar 5 (.bytes [0x05]), .list 6 [],
      .scalar 7 (.bytes [])]
    decode data 1 = .ok value ∧ value.tree.size = 5 ∧ value.tree.payloadBytes = 2 ∧
      headerBytes data (value.nodes data 1) = 4 ∧ value.render.length = 4 := by
  intro data value
  have hDecode : decode data 1 = .ok value := by cbv
  obtain ⟨-, -, -, -, hBytes, -, hRender, -⟩ := value_no_larger_than_its_bytes hDecode
  have hPayload : value.tree.payloadBytes = 2 := by decide
  rw [hPayload] at hBytes hRender
  exact ⟨hDecode, by decide, hPayload, Nat.add_right_cancel hBytes.symm, hRender⟩

end Decode

end NodeStore.Rlp
