import NodeStore.Proofs.Bytes
import NodeStore.Proofs.Rlp.Recognition

/-!
The canonical encoding of trees: every payload has the shortest header that can
stand before it. Main statement: wherever the encoding of a tree stands in a
buffer, decoding there gives the tree back, and every node carries the offset
where its own encoding ends.
-/

namespace NodeStore.Rlp

namespace Kind

/-- The shortest header for a payload of a given length. -/
def header (kind : Kind) (length : Nat) : Bytes :=
  if length ≤ maxShortLength then [.ofNat (kind.base + length)]
  else .ofNat (kind.base + maxShortLength + (Bytes.digits length).length) :: Bytes.digits length

def wrap (kind : Kind) (payload : Bytes) : Bytes := kind.header payload.length ++ payload

theorem length_header_pos (kind : Kind) (length : Nat) : 0 < (kind.header length).length := by
  rw [header]
  split <;> simp

theorem length_header_mono (kind : Kind) {m n : Nat} (h : m ≤ n) :
    (kind.header m).length ≤ (kind.header n).length := by
  rw [header, header]
  split
  · split <;> simp
  · next hLong =>
      have hLonger : ¬n ≤ maxShortLength := by omega
      rw [if_neg hLonger, List.length_cons, List.length_cons]
      exact Nat.succ_le_succ (Bytes.length_digits_mono h)

theorem length_wrap_lt (kind : Kind) {p q : Bytes} (h : p.length < q.length) :
    (kind.wrap p).length < (kind.wrap q).length := by
  rw [wrap, wrap, List.length_append, List.length_append]
  exact Nat.add_lt_add_of_le_of_lt (kind.length_header_mono (Nat.le_of_lt h)) h

end Kind

namespace Framed

variable {kind : Kind} {header payload : Bytes}

/-- A length is spelled out in at most eight bytes. -/
theorem length_lt (h : Framed kind header payload) : payload.length < 256 ^ 8 := by
  cases h with
  | itself =>
      rw [List.length_singleton]
      decide
  | short hShort => exact Nat.lt_of_le_of_lt hShort (by decide)
  | @long _ digits _ hLong hLength hLead hCount =>
      rw [← hLength]
      exact Nat.lt_of_lt_of_le (Bytes.toNat_lt digits) (Nat.pow_le_pow_right (by decide) hCount)

theorem header_pos (h : Framed .list header payload) : 0 < header.length := by
  cases h <;> exact Nat.succ_pos _

theorem canonical (kind : Kind) {payload : Bytes} (h : payload.length < 256 ^ 8) :
    Framed kind (kind.header payload.length) payload := by
  rw [Kind.header]
  split
  · next hShort => exact .short hShort
  · next hLong =>
      exact .long (Nat.lt_of_not_le hLong) (Bytes.toNat_digits _) (Bytes.head?_digits _)
        (Bytes.length_digits_le h)

/-- Headers are canonical. Only a byte below `0x80` can do without one. -/
theorem header_eq (h : Framed kind header payload) :
    header = kind.header payload.length ∨
      kind = .string ∧ header = [] ∧ ∃ b : UInt8, b.toNat ≤ 0x7f ∧ payload = [b] := by
  cases h with
  | @itself b hSmall => exact .inr ⟨rfl, rfl, b, hSmall, rfl⟩
  | short hShort =>
      left
      rw [Kind.header, if_pos hShort]
  | @long _ digits _ hLong hLength hLead hCount =>
      left
      rw [Kind.header, if_neg (Nat.not_le_of_lt hLong), ← hLength, Bytes.digits_toNat hLead]

end Framed

/-- The canonical encoding of a scalar: a byte below `0x80` stands for itself. -/
def Scalar.encode (content : Scalar) : Bytes :=
  match content.toBytes with
  | [b] => if b.toNat ≤ 0x7f then [b] else Kind.string.wrap [b]
  | payload => Kind.string.wrap payload

namespace Tree

/-- Induction over trees: a list is reached from all of its elements. -/
@[induction_eliminator]
theorem induction {motive : Tree → Prop} (scalar : ∀ content, motive (.scalar content))
    (list : ∀ items, (∀ item ∈ items, motive item) → motive (.list items)) (tree : Tree) :
    motive tree :=
  @Tree.rec motive (fun items => ∀ item ∈ items, motive item) scalar list
    (List.forall_mem_nil _) (fun _ _ hFirst hRest => List.forall_mem_cons.2 ⟨hFirst, hRest⟩) tree

mutual

/-- A tree in bytes, given how its scalars are written: before the elements of a
list stands the shortest header. -/
def write (scalar : Scalar → Bytes) : Tree → Bytes
  | .scalar content => scalar content
  | .list items => Kind.list.wrap (writeAll scalar items)

def writeAll (scalar : Scalar → Bytes) : List Tree → Bytes
  | [] => []
  | item :: items => item.write scalar ++ writeAll scalar items

end

/-- The canonical encoding. -/
def encode (tree : Tree) : Bytes := tree.write Scalar.encode

mutual

/-- How many lists enclose one another at most. -/
def depth : Tree → Nat
  | .scalar _ => 0
  | .list items => depthOfAll items + 1

def depthOfAll : List Tree → Nat
  | [] => 0
  | item :: items => max item.depth (depthOfAll items)

end

mutual

/-- The scalars of a tree, from left to right. -/
def scalars : Tree → List Scalar
  | .scalar content => [content]
  | .list items => scalarsOfAll items

def scalarsOfAll : List Tree → List Scalar
  | [] => []
  | item :: items => item.scalars ++ scalarsOfAll items

end

/-- A tree whose scalars are byte strings, none of them known to be text. -/
def IsBinary (tree : Tree) : Prop := ∀ content ∈ tree.scalars, ∃ payload, content = .bytes payload

mutual

/-- The value of a tree whose canonical encoding starts at an offset. Every node
carries the offset where its own encoding ends; elements follow the header of
their list, each where the one before it ends. -/
def placeAt (start : Nat) : Tree → Value
  | .scalar content => .scalar (start + (scalar content).encode.length) (.bytes content.toBytes)
  | .list items =>
      .list (start + (list items).encode.length)
        (placeAllAt (start + (Kind.list.header (writeAll Scalar.encode items).length).length) items)

def placeAllAt (start : Nat) : List Tree → List Value
  | [] => []
  | item :: items => item.placeAt start :: placeAllAt (start + item.encode.length) items

end

theorem writeAll_eq_flatMap (scalar : Scalar → Bytes) (items : List Tree) :
    writeAll scalar items = items.flatMap (write scalar) := by
  induction items with
  | nil => rfl
  | cons item items ih => rw [writeAll, ih, List.flatMap_cons]

theorem scalarsOfAll_eq_flatMap (items : List Tree) : scalarsOfAll items = items.flatMap scalars := by
  induction items with
  | nil => rfl
  | cons item items ih => rw [scalarsOfAll, ih, List.flatMap_cons]

theorem depth_le_of_mem {item : Tree} {items : List Tree} (h : item ∈ items) :
    item.depth ≤ depthOfAll items := by
  induction items with
  | nil => cases h
  | cons first items ih =>
      rw [depthOfAll]
      rcases List.mem_cons.1 h with rfl | h
      · exact Nat.le_max_left _ _
      · exact Nat.le_trans (ih h) (Nat.le_max_right _ _)

theorem length_encode_le_of_mem {item : Tree} {items : List Tree} (h : item ∈ items) :
    item.encode.length ≤ (writeAll Scalar.encode items).length := by
  induction items with
  | nil => cases h
  | cons first items ih =>
      rw [writeAll, List.length_append]
      rcases List.mem_cons.1 h with rfl | h
      · exact Nat.le_add_right _ _
      · exact Nat.le_trans (ih h) (Nat.le_add_left _ _)

end Tree

/-- The canonical encoding of a scalar is its bytes behind a header that may stand there. -/
theorem Scalar.framed_encode {content : Scalar} (h : content.toBytes.length < 256 ^ 8) :
    ∃ header, Framed .string header content.toBytes ∧ content.encode = header ++ content.toBytes := by
  rw [encode]
  split
  · next b hBytes =>
      split
      · next hSmall =>
          rw [hBytes]
          exact ⟨[], .itself hSmall, rfl⟩
      · rw [hBytes] at h ⊢
        exact ⟨_, Framed.canonical .string h, rfl⟩
  · exact ⟨_, Framed.canonical .string h, rfl⟩

theorem Scalar.length_toBytes_le (content : Scalar) :
    content.toBytes.length ≤ content.encode.length := by
  rw [encode]
  split
  · next b hBytes =>
      rw [hBytes]
      split <;> simp [Kind.wrap]
  · simp [Kind.wrap]

namespace Tree

/-- What stands behind the header of a tree's canonical encoding. -/
def payload : Tree → Bytes
  | .scalar content => content.toBytes
  | .list items => writeAll Scalar.encode items

theorem length_payload_le (tree : Tree) : tree.payload.length ≤ tree.encode.length := by
  cases tree with
  | scalar content => exact content.length_toBytes_le
  | list items =>
      change _ ≤ (Kind.list.wrap _).length
      rw [Kind.wrap, List.length_append]
      exact Nat.le_add_left _ _

/-- Elements that can each be placed anywhere can be placed one after the other. -/
theorem exists_row_placeAllAt {depth : Nat} {items : List Tree}
    (h : ∀ item ∈ items, ∀ start, Placed depth start item.encode (item.placeAt start)) (start : Nat) :
    ∃ parts, Row (Placed depth) start parts ∧
      parts.flatMap Prod.fst = writeAll Scalar.encode items ∧
      parts.map Prod.snd = placeAllAt start items := by
  induction items generalizing start with
  | nil => exact ⟨[], .nil, rfl, rfl⟩
  | cons item items ih =>
      obtain ⟨hFirst, hOthers⟩ := List.forall_mem_cons.1 h
      obtain ⟨parts, hRow, hWords, hValues⟩ := ih hOthers (start + item.encode.length)
      refine ⟨(item.encode, item.placeAt start) :: parts, row_cons.2 ⟨hFirst start, hRow⟩, ?_, ?_⟩
      · rw [List.flatMap_cons, hWords]
        rfl
      · rw [List.map_cons, hValues]
        rfl

/-- The canonical encoding of a tree is a word of the format, wherever it
stands. -/
theorem placed_encode {tree : Tree} {depth : Nat} (hDepth : tree.depth ≤ depth)
    (hLength : tree.payload.length < 256 ^ 8) (start : Nat) :
    Placed depth start tree.encode (tree.placeAt start) := by
  induction tree generalizing depth start with
  | scalar content =>
      obtain ⟨header, hFramed, hEncode⟩ := Scalar.framed_encode hLength
      have hWord : (Tree.scalar content).encode = header ++ content.toBytes := hEncode
      rw [placeAt, hWord]
      exact .scalar hFramed
  | list items ih =>
      obtain ⟨below, rfl⟩ : ∃ below, depth = below + 1 :=
        Nat.exists_eq_add_one.2 (Nat.lt_of_lt_of_le (Nat.succ_pos _) hDepth)
      have hItems : ∀ item ∈ items, ∀ start, Placed below start item.encode (item.placeAt start) := by
        intro item hItem start
        have hPayload : item.payload.length < 256 ^ 8 :=
          Nat.lt_of_le_of_lt (Nat.le_trans item.length_payload_le (length_encode_le_of_mem hItem)) hLength
        exact ih item hItem (Nat.le_trans (depth_le_of_mem hItem) (Nat.le_of_succ_le_succ hDepth))
          hPayload start
      let header := Kind.list.header (writeAll Scalar.encode items).length
      obtain ⟨parts, hRow, hWords, hValues⟩ := exists_row_placeAllAt hItems (start + header.length)
      have hFramed : Framed .list header (parts.flatMap Prod.fst) := by
        rw [hWords]
        exact Framed.canonical .list hLength
      have hWord : (Tree.list items).encode = header ++ parts.flatMap Prod.fst := by
        rw [hWords]
        rfl
      rw [placeAt, hWord, ← hValues]
      exact .list hFramed hRow

theorem trees_placeAllAt {items : List Tree}
    (h : ∀ item ∈ items, ∀ start, (item.placeAt start).tree = item) (start : Nat) :
    Value.trees (placeAllAt start items) = items := by
  induction items generalizing start with
  | nil => rfl
  | cons item items ih =>
      obtain ⟨hFirst, hOthers⟩ := List.forall_mem_cons.1 h
      rw [placeAllAt, Value.trees, hFirst, ih hOthers]

theorem IsBinary.of_mem {item : Tree} {items : List Tree} (h : (list items).IsBinary)
    (hItem : item ∈ items) : item.IsBinary := by
  intro content hContent
  apply h content
  rw [scalars, scalarsOfAll_eq_flatMap]
  exact List.mem_flatMap.2 ⟨item, hItem, hContent⟩

theorem tree_placeAt {tree : Tree} (h : tree.IsBinary) (start : Nat) :
    (tree.placeAt start).tree = tree := by
  induction tree generalizing start with
  | scalar content =>
      obtain ⟨payload, rfl⟩ := h content (List.mem_singleton_self content)
      rfl
  | list items ih =>
      rw [placeAt, Value.tree, trees_placeAllAt fun item hItem => ih item hItem (h.of_mem hItem)]

theorem position_placeAt (tree : Tree) (start : Nat) :
    (tree.placeAt start).position = start + tree.encode.length := by
  cases tree <;> rfl

end Tree

/-- Wherever the canonical encoding of a tree stands in a buffer, decoding at its
first byte gives back the tree, if at most 1024 of its lists enclose one another.
The value ends where the encoding does, and so does every value inside it: it is
the tree placed at that offset. -/
theorem decode_encode_in_context {tree : Tree} (hBinary : tree.IsBinary)
    (hDepth : tree.depth ≤ maxNesting) {before after : Bytes}
    (hLength : (before ++ tree.encode ++ after).length < 2 ^ 63) :
    let value := tree.placeAt before.length
    decode (before ++ tree.encode ++ after) before.length = .ok value ∧
      value.tree = tree ∧ value.position = before.length + tree.encode.length := by
  intro value
  have hPayload : tree.payload.length < 256 ^ 8 := by
    have hEncode := tree.length_payload_le
    simp only [List.length_append] at hLength
    omega
  have hWord : tree.encode <+: (before ++ tree.encode ++ after).drop before.length := by
    rw [List.append_assoc, List.drop_left]
    exact List.prefix_append _ _
  exact ⟨decode_of_placed hWord (Tree.placed_encode hDepth hPayload before.length),
    Tree.tree_placeAt hBinary _, Tree.position_placeAt _ _⟩

/-- A list of a byte, a string whose length is spelled out, and an empty list,
between bytes that are not looked at. -/
theorem decode_encode_in_context_nested :
    let payload : Bytes := List.replicate 56 0xab
    let tree : Tree := .list [.scalar (.bytes [0x05]), .scalar (.bytes payload), .list []]
    tree.IsBinary ∧ tree.depth ≤ maxNesting ∧
      ([0xff] ++ tree.encode ++ [0x00]).length < 2 ^ 63 ∧
      decode ([0xff] ++ tree.encode ++ [0x00]) 1 =
        .ok (.list 63 [.scalar 4 (.bytes [0x05]), .scalar 62 (.bytes payload), .list 63 []]) := by
  intro payload tree
  have hBinary : tree.IsBinary := by
    simp [tree, Tree.IsBinary, Tree.scalars, Tree.scalarsOfAll]
  have hDepth : tree.depth ≤ maxNesting := by decide
  have hEncode : tree.encode = 0xf8 :: 0x3c :: 0x05 :: 0xb8 :: 0x38 :: (payload ++ [0xc0]) := by cbv
  have hLength : ([0xff] ++ tree.encode ++ [0x00]).length < 2 ^ 63 := by
    rw [hEncode]
    decide
  exact ⟨hBinary, hDepth, hLength, (decode_encode_in_context hBinary hDepth hLength).1.trans (by cbv)⟩

end NodeStore.Rlp
