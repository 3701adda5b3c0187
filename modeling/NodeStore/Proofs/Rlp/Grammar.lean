import NodeStore.Rlp.Frame
import NodeStore.Rlp.Value

/-!
The words of the format, independent of any reader: which bytes spell a tree,
and where the parts of a spelled tree end.
-/

namespace NodeStore.Rlp

/-- A value without the offsets of its nodes. -/
inductive Tree where
  | scalar (content : Scalar)
  | list (items : List Tree)

mutual

def Value.tree : Value → Tree
  | .scalar _ content => .scalar content
  | .list _ items => .list (trees items)

def Value.trees : List Value → List Tree
  | [] => []
  | value :: values => value.tree :: trees values

end

/-- Induction over values: a list is reached from all of its elements. -/
@[induction_eliminator]
theorem Value.induction {motive : Value → Prop}
    (scalar : ∀ position content, motive (.scalar position content))
    (list : ∀ position items, (∀ item ∈ items, motive item) → motive (.list position items))
    (value : Value) : motive value :=
  @Value.rec motive (fun items => ∀ item ∈ items, motive item) scalar list
    (List.forall_mem_nil _) (fun _ _ hFirst hRest => List.forall_mem_cons.2 ⟨hFirst, hRest⟩) value

theorem Value.trees_eq_map (values : List Value) : trees values = values.map tree := by
  induction values with
  | nil => rfl
  | cons value values ih => rw [trees, ih, List.map_cons]

/-- The first byte that announces an empty payload of a kind. -/
def Kind.base : Kind → Nat
  | .string => 0x80
  | .list => 0xc0

/-- The header that stands before a payload. A byte below `0x80` is a string
without a header; a length above 55 is spelled out in at most eight bytes, the
first of which is not zero. -/
inductive Framed : Kind → (header payload : Bytes) → Prop where
  | itself {b : UInt8} (hSmall : b.toNat ≤ 0x7f) : Framed .string [] [b]
  | short {kind : Kind} {payload : Bytes} (hShort : payload.length ≤ maxShortLength) :
      Framed kind [.ofNat (kind.base + payload.length)] payload
  | long {kind : Kind} {digits payload : Bytes} (hLong : maxShortLength < payload.length)
      (hLength : Bytes.toNat digits = payload.length) (hLead : digits.head? ≠ some 0)
      (hCount : digits.length ≤ 8) :
      Framed kind (.ofNat (kind.base + maxShortLength + digits.length) :: digits) payload

/-- The words that spell a tree with at most `depth` lists inside one another:
a string, or a list header and the words of the elements. -/
inductive Spells : (depth : Nat) → (word : Bytes) → Tree → Prop where
  | scalar {depth : Nat} {header payload : Bytes} (hFramed : Framed .string header payload) :
      Spells depth (header ++ payload) (.scalar (.bytes payload))
  | list {depth : Nat} {header : Bytes} {parts : List (Bytes × Tree)}
      (hFramed : Framed .list header (parts.flatMap Prod.fst))
      (hParts : ∀ part ∈ parts, Spells depth part.1 part.2) :
      Spells (depth + 1) (header ++ parts.flatMap Prod.fst) (.list (parts.map Prod.snd))

/-- The words that stand one after the other from an offset on, each with what
`Item` says of it there. -/
def Row {α : Type} (Item : Nat → Bytes → α → Prop) (start : Nat) (parts : List (Bytes × α)) : Prop :=
  ∀ before part after, parts = before ++ part :: after →
    Item (start + (before.flatMap Prod.fst).length) part.1 part.2

/-- A word of the format that stands at an offset, with the value whose nodes
all carry the offset just past their own bytes. -/
inductive Placed : (depth start : Nat) → (word : Bytes) → Value → Prop where
  | scalar {depth start : Nat} {header payload : Bytes} (hFramed : Framed .string header payload) :
      Placed depth start (header ++ payload)
        (.scalar (start + (header ++ payload).length) (.bytes payload))
  | list {depth start : Nat} {header : Bytes} {parts : List (Bytes × Value)}
      (hFramed : Framed .list header (parts.flatMap Prod.fst))
      (hParts : Row (Placed depth) (start + header.length) parts) :
      Placed (depth + 1) start (header ++ parts.flatMap Prod.fst)
        (.list (start + (header ++ parts.flatMap Prod.fst).length) (parts.map Prod.snd))

section Row

variable {α β : Type} {Item Item' : Nat → Bytes → α → Prop} {start : Nat}

theorem Row.nil : Row Item start [] := by
  intro before part after hParts
  simp at hParts

theorem Row.imp {parts : List (Bytes × α)} (h : Row Item start parts)
    (hItem : ∀ position word value, Item position word value → Item' position word value) :
    Row Item' start parts :=
  fun before part after hParts => hItem _ _ _ (h before part after hParts)

theorem Row.exists_of_mem {parts : List (Bytes × α)} (h : Row Item start parts)
    {part : Bytes × α} (hPart : part ∈ parts) : ∃ position, Item position part.1 part.2 := by
  obtain ⟨before, after, hSplit⟩ := List.append_of_mem hPart
  exact ⟨_, h before part after hSplit⟩

theorem row_cons {part : Bytes × α} {parts : List (Bytes × α)} :
    Row Item start (part :: parts) ↔
      Item start part.1 part.2 ∧ Row Item (start + part.1.length) parts := by
  constructor
  · intro h
    refine ⟨h [] part parts rfl, ?_⟩
    intro before other after hParts
    have hOther := h (part :: before) other after (by rw [hParts, List.cons_append])
    rwa [List.flatMap_cons, List.length_append, ← Nat.add_assoc] at hOther
  · rintro ⟨hFirst, hRest⟩ before other after hParts
    cases before with
    | nil =>
        obtain ⟨rfl, -⟩ := List.cons.inj hParts
        exact hFirst
    | cons first before =>
        obtain ⟨rfl, hTail⟩ := List.cons.inj hParts
        rw [List.flatMap_cons, List.length_append, ← Nat.add_assoc]
        exact hRest before other after hTail

/-- Words that can each stand anywhere can stand in a row. -/
theorem exists_row (f : α → β) {parts : List (Bytes × β)}
    (h : ∀ part ∈ parts, ∀ start, ∃ value, Item start part.1 value ∧ f value = part.2) (start : Nat) :
    ∃ row : List (Bytes × α), Row Item start row ∧
      row.map (fun part => (part.1, f part.2)) = parts := by
  induction parts generalizing start with
  | nil => exact ⟨[], .nil, rfl⟩
  | cons part parts ih =>
      obtain ⟨value, hValue, hPart⟩ := h part (List.mem_cons_self ..) start
      obtain ⟨row, hRow, hParts⟩ :=
        ih (fun other hOther => h other (List.mem_cons_of_mem _ hOther)) (start + part.1.length)
      refine ⟨(part.1, value) :: row, row_cons.2 ⟨hValue, hRow⟩, ?_⟩
      rw [List.map_cons, hPart, hParts]

end Row

theorem Placed.spells {depth start : Nat} {word : Bytes} {value : Value}
    (h : Placed depth start word value) : Spells depth word value.tree := by
  induction h with
  | scalar hFramed => exact .scalar hFramed
  | @list depth start header parts hFramed hParts ih =>
      let bare := parts.map fun part => (part.1, part.2.tree)
      have hWords : bare.flatMap Prod.fst = parts.flatMap Prod.fst := List.flatMap_map ..
      have hTrees : bare.map Prod.snd = Value.trees (parts.map Prod.snd) := by
        rw [Value.trees_eq_map, List.map_map, List.map_map]
        rfl
      rw [Value.tree, ← hTrees, ← hWords]
      rw [← hWords] at hFramed
      apply Spells.list hFramed
      intro part hPart
      obtain ⟨old, hOld, rfl⟩ := List.mem_map.1 hPart
      obtain ⟨before, after, hSplit⟩ := List.append_of_mem hOld
      exact ih before old after hSplit

/-- A word that spells a tree can be placed anywhere. -/
theorem Spells.placed {depth : Nat} {word : Bytes} {tree : Tree} (h : Spells depth word tree)
    (start : Nat) : ∃ value, Placed depth start word value ∧ value.tree = tree := by
  induction h generalizing start with
  | scalar hFramed => exact ⟨_, .scalar hFramed, rfl⟩
  | @list depth header parts hFramed hParts ih =>
      obtain ⟨row, hRow, rfl⟩ := exists_row Value.tree ih (start + header.length)
      have hWords : (row.map fun part => (part.1, part.2.tree)).flatMap Prod.fst =
          row.flatMap Prod.fst := List.flatMap_map ..
      rw [hWords] at hFramed ⊢
      refine ⟨_, .list hFramed hRow, ?_⟩
      rw [Value.tree, Value.trees_eq_map, List.map_map, List.map_map]
      rfl

end NodeStore.Rlp
