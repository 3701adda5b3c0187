import NodeStore.Proofs.Rlp.Malleability

/-!
Where the nodes of a decoded value stand in the buffer. The elements of a list
lie end to end behind its header, and what surrounds a node plays no part in it.
Main statement: decoding the whole buffer at the offset where a node starts
gives that node again, with all its offsets.
-/

namespace NodeStore.Rlp

mutual

/-- The nodes of a value that was read at an offset, each with the offset where
it starts. The first element of a list starts behind the header of the list,
every other one where the one before it ends. -/
def Value.nodes (data : Bytes) (start : Nat) : Value → List (Nat × Value)
  | .scalar position content => [(start, .scalar position content)]
  | .list position items =>
      (start, .list position items) :: nodesAll data (start + headerLengthAt data start) items

def Value.nodesAll (data : Bytes) (start : Nat) : List Value → List (Nat × Value)
  | [] => []
  | value :: values => value.nodes data start ++ nodesAll data value.position values

end

/-- Values that lie end to end between two offsets, none of them empty. -/
def Value.Tiles (start : Nat) : List Value → (stop : Nat) → Prop
  | [], stop => stop = start
  | value :: values, stop => start < value.position ∧ Tiles value.position values stop

theorem Value.Tiles.position_last {start stop : Nat} {items : List Value} {last : Value}
    (h : Tiles start items stop) (hLast : items.getLast? = some last) : last.position = stop := by
  induction items generalizing start with
  | nil => cases hLast
  | cons item items ih =>
      obtain ⟨-, hRest⟩ := h
      cases items with
      | nil =>
          obtain rfl : item = last := Option.some.inj hLast
          exact Eq.symm hRest
      | cons next items => exact ih hRest (by rwa [List.getLast?_cons_cons] at hLast)

section Placed

variable {depth start : Nat} {word : Bytes} {value : Value}

theorem Framed.length_pos {kind : Kind} {header payload : Bytes} (h : Framed kind header payload) :
    0 < (header ++ payload).length := by
  cases h <;> simp

theorem Placed.length_pos (h : Placed depth start word value) : 0 < word.length := by
  cases h with
  | scalar hFramed | list hFramed hParts => exact hFramed.length_pos

/-- A word may also stand where more lists can be nested. -/
theorem Placed.mono (h : Placed depth start word value) {bound : Nat} (hBound : depth ≤ bound) :
    Placed bound start word value := by
  induction h generalizing bound with
  | scalar hFramed => exact .scalar hFramed
  | @list depth start header parts hFramed hParts ih =>
      obtain ⟨below, rfl⟩ : ∃ below, bound = below + 1 :=
        Nat.exists_eq_add_one.2 (Nat.lt_of_lt_of_le (Nat.succ_pos depth) hBound)
      apply Placed.list hFramed
      intro before part after hSplit
      exact ih before part after hSplit (Nat.le_of_succ_le_succ hBound)

theorem tiles_of_row {parts : List (Bytes × Value)} (h : Row (Placed depth) start parts) :
    Value.Tiles start (parts.map Prod.snd) (start + (parts.flatMap Prod.fst).length) := by
  induction parts generalizing start with
  | nil => rfl
  | cons part parts ih =>
      obtain ⟨hFirst, hRest⟩ := row_cons.1 h
      have hEnd := hFirst.position_eq
      have hPos := hFirst.length_pos
      refine ⟨by omega, ?_⟩
      rw [List.flatMap_cons, List.length_append, ← Nat.add_assoc, hEnd]
      exact ih hRest

/-- A word whose nodes all decode to themselves if it stands in the buffer. -/
def DecodesApart (data : Bytes) (start : Nat) (word : Bytes) (value : Value) : Prop :=
  word <+: data.drop start → ∀ node ∈ value.nodes data start, decode data node.1 = .ok node.2

theorem decode_nodesAll_of_row {data : Bytes} {parts : List (Bytes × Value)}
    (hRow : Row (DecodesApart data) start parts)
    (hEnds : Row (fun start word value => value.position = start + word.length) start parts)
    (hWords : parts.flatMap Prod.fst <+: data.drop start) :
    ∀ node ∈ Value.nodesAll data start (parts.map Prod.snd), decode data node.1 = .ok node.2 := by
  induction parts generalizing start with
  | nil => exact List.forall_mem_nil _
  | cons part parts ih =>
      obtain ⟨hFirst, hOthers⟩ := row_cons.1 hRow
      obtain ⟨hEnd, hOtherEnds⟩ := row_cons.1 hEnds
      rw [List.flatMap_cons] at hWords
      rw [List.map_cons, Value.nodesAll, List.forall_mem_append, hEnd]
      exact ⟨hFirst ((List.prefix_append _ _).trans hWords),
        ih hOthers hOtherEnds (prefix_drop_of_append hWords)⟩

/-- On the whole buffer a node may look past the end of the list around it, and
nest as many lists as the outermost value, but a node that was decoded needs
neither. -/
theorem Placed.decodesApart {data : Bytes} (h : Placed depth start word value)
    (hDepth : depth ≤ maxNesting) : DecodesApart data start word value := by
  induction h with
  | scalar hFramed =>
      intro hWord
      rw [Value.nodes, List.forall_mem_singleton]
      exact decode_of_placed hWord (.scalar hFramed)
  | @list depth start header parts hFramed hParts ih =>
      intro hWord
      have hWhole := Placed.list hFramed hParts
      have hRow : Row (DecodesApart data) (start + header.length) parts :=
        fun before part after hSplit => ih before part after hSplit (Nat.le_of_succ_le hDepth)
      have hEnds := hParts.imp fun _ _ _ hPlaced => hPlaced.position_eq
      rw [Value.nodes, headerLengthAt_of_framed hFramed hWord, List.forall_mem_cons]
      exact ⟨decode_of_placed hWord (hWhole.mono hDepth),
        decode_nodesAll_of_row hRow hEnds (prefix_drop_of_append hWord)⟩

end Placed

section Decode

variable {data : Bytes} {position start stop : Nat} {value : Value}

theorem tiles_of_decode {items : List Value} (h : decode data start = .ok (.list stop items)) :
    Value.Tiles (start + headerLengthAt data start) items stop := by
  obtain ⟨word, hWord, hPlaced⟩ := exists_placed_of_decode h
  cases hPlaced with
  | list hFramed hParts =>
      rw [headerLengthAt_of_framed hFramed hWord, List.length_append, ← Nat.add_assoc]
      exact tiles_of_row hParts

/-- The payload of a scalar is what its span ends with. -/
theorem payload_of_decode {content : Scalar} (h : decode data start = .ok (.scalar stop content)) :
    ∃ payload, content = .bytes payload ∧ start + payload.length ≤ stop ∧
      (data.take stop).drop (stop - payload.length) = payload := by
  obtain ⟨word, hWord, hPlaced⟩ := exists_placed_of_decode h
  cases hPlaced with
  | @scalar _ _ header payload hFramed =>
      obtain ⟨tail, hTail⟩ := prefix_drop_of_append hWord
      have hStop : start + (header ++ payload).length = start + header.length + payload.length := by
        rw [List.length_append, Nat.add_assoc]
      refine ⟨payload, rfl, ?_, ?_⟩
      · omega
      · rw [hStop, Nat.add_sub_cancel, List.drop_take, Nat.add_sub_cancel_left, ← hTail, List.take_left]

/-- Every node of a decoded value, however deep, ends past its start, and decodes
to itself, offsets included, where it starts in the whole buffer. The elements of
a list lie end to end from its payload's first byte to the end of the list, which
is the payload's first byte if there are none. The payload of a scalar is what
stands right before its end. -/
theorem nodes_tile_and_decode_apart (h : decode data position = .ok value) :
    ∀ start node, (start, node) ∈ value.nodes data position →
      start < node.position ∧
      (∀ stop items, node = .list stop items →
        let inner := start + headerLengthAt data start
        Value.Tiles inner items stop ∧ (items = [] → stop = inner) ∧
          ∀ last, items.getLast? = some last → last.position = stop) ∧
      (∀ stop content, node = .scalar stop content →
        ∃ payload, content = .bytes payload ∧ start + payload.length ≤ stop ∧
          (data.take stop).drop (stop - payload.length) = payload) ∧
      decode data start = .ok node := by
  intro start node hNode
  obtain ⟨word, hWord, hPlaced⟩ := exists_placed_of_decode h
  have hDecode : decode data start = .ok node :=
    hPlaced.decodesApart (Nat.le_refl _) hWord (start, node) hNode
  refine ⟨(position_of_decode hDecode).1, ?_, ?_, hDecode⟩
  · rintro stop items rfl
    have hTiles := tiles_of_decode hDecode
    refine ⟨hTiles, ?_, fun last => hTiles.position_last⟩
    rintro rfl
    exact hTiles
  · rintro stop content rfl
    exact payload_of_decode hDecode

/-- The byte in a list in a list, read behind a byte that is skipped: its list
starts behind the outer header and the string before it. -/
theorem nodes_tile_and_decode_apart_nested :
    let data : Bytes := [0xff, 0xc5, 0x81, 0x06, 0xc1, 0x05, 0xc0, 0x00]
    let inner : Value := .list 6 [.scalar 6 (.bytes [0x05])]
    let value : Value := .list 7 [.scalar 4 (.bytes [0x06]), inner, .list 7 []]
    decode data 1 = .ok value ∧ (4, inner) ∈ value.nodes data 1 ∧
      value.nodes data 1 = [(1, value), (2, .scalar 4 (.bytes [0x06])), (4, inner),
        (5, .scalar 6 (.bytes [0x05])), (6, .list 7 [])] ∧
      decode data 4 = .ok inner := by
  intro data inner value
  have hDecode : decode data 1 = .ok value := by cbv
  have hNodes : value.nodes data 1 = [(1, value), (2, .scalar 4 (.bytes [0x06])), (4, inner),
      (5, .scalar 6 (.bytes [0x05])), (6, .list 7 [])] := by cbv
  have hInner : (4, inner) ∈ value.nodes data 1 := by
    rw [hNodes]
    simp
  exact ⟨hDecode, hInner, hNodes, (nodes_tile_and_decode_apart hDecode 4 inner hInner).2.2.2⟩

end Decode

end NodeStore.Rlp
