import NodeStore.Proofs.Rlp.Malleability

/-!
Which item a failure names. A list is decoded from left to right and before what
is around it, so the item that is named is the first that fails, and the lists
that lead to it are sound up to there. Main statement: what fails is the header
of the named item, or the item is a list inside too many others.
-/

namespace NodeStore.Rlp

/-- The bytes between two offsets, which are all that an item sees that starts at
the first one in a list that ends at the second. -/
def visible (data : Bytes) (start stop : Nat) : Bytes := (data.take stop).drop start

/-- Lists inside one another, of which the outermost starts at `start` and sees
the bytes up to `stop`. Each has a sound header, and its elements are words of
the format up to where the next list starts. There are `count` of them, and behind
such elements of the innermost, which ends at `inner`, comes `offset`; without any
list that is `start` itself. Up to `levels` lists may be inside one another. -/
inductive Chain (data : Bytes) : (levels start stop count offset inner : Nat) → Prop where
  | here (levels start stop : Nat) : Chain data levels start stop 0 start stop
  | inside {levels start stop count offset inner : Nat} {frame : Frame} {parts : List (Bytes × Value)}
      (hRead : Frame.read (visible data start stop) = .ok frame) (hKind : frame.kind = .list)
      (hRow : Row (Placed levels) (start + frame.headerLength) parts)
      (hWords : parts.flatMap Prod.fst <+: frame.payload)
      (hChain : Chain data levels (start + frame.headerLength + (parts.flatMap Prod.fst).length)
        (start + frame.length) count offset inner) :
      Chain data (levels + 1) start stop (count + 1) offset inner

/-- What is wrong with the item at `offset` inside `count` lists: its header, or
that it is a list at all where no more may be nested. -/
inductive Unsound (data : Bytes) (levels count offset inner : Nat) : (reason : String) → Prop where
  | header {flaw : Flaw} (hRead : Frame.read (visible data offset inner) = .error flaw) :
      Unsound data levels count offset inner flaw.reason
  | nesting {frame : Frame} (hRead : Frame.read (visible data offset inner) = .ok frame)
      (hKind : frame.kind = .list) (hCount : count = levels) :
      Unsound data levels count offset inner Flaw.nestedTooDeep.reason

/-- The failure names the item that a chain of lists leads to, and what is wrong
with it. -/
def Blames (data : Bytes) (levels start stop : Nat) (e : DecodeError) : Prop :=
  ∃ count offset inner reason, Chain data levels start stop count offset inner ∧
    offset < inner ∧ Unsound data levels count offset inner reason ∧ e = .malformed offset reason

section Visible

variable {data : Bytes} {start stop : Nat} {frame : Frame}

theorem visible_add {a b : Nat} (h : start + b ≤ stop) :
    visible data (start + a) (start + b) = ((visible data start stop).take b).drop a := by
  have hTake : (data.take (start + b)).drop start = ((data.take stop).drop start).take b := by
    rw [List.drop_take, List.drop_take, List.take_take, Nat.add_sub_cancel_left,
      Nat.min_eq_left (Nat.le_sub_of_add_le' h)]
  rw [visible, visible, ← List.drop_drop, hTake]

theorem length_visible (h : stop ≤ data.length) : (visible data start stop).length = stop - start := by
  rw [visible, List.length_drop, List.length_take, Nat.min_eq_left h]

/-- An item ends no later than the bytes that it sees. -/
theorem add_length_le_of_read (hStop : stop ≤ data.length)
    (h : Frame.read (visible data start stop) = .ok frame) : start + frame.length ≤ stop := by
  have hSum := Frame.length_add_rest_of_read h
  have hPos := Frame.length_pos_of_read h
  rw [length_visible hStop] at hSum
  omega

/-- What is left of a payload behind some of its bytes is what is visible there up
to the end of the item. -/
theorem eq_visible_of_payload {front tail : Bytes} (hStop : stop ≤ data.length)
    (h : Frame.read (visible data start stop) = .ok frame) (hPayload : frame.payload = front ++ tail) :
    tail = visible data (start + frame.headerLength + front.length) (start + frame.length) := by
  obtain ⟨header, -, hHeader, hBytes⟩ := Frame.framed_of_read h
  have hItem : (visible data start stop).take frame.length = header ++ front ++ tail := by
    rw [hBytes, Frame.length, ← hHeader, ← List.length_append, List.take_left, hPayload,
      List.append_assoc]
  rw [Nat.add_assoc, visible_add (add_length_le_of_read hStop h), hItem, ← hHeader,
    ← List.length_append, List.drop_left]

end Visible

section Items

variable {levels start : Nat} {bytes : Bytes} {e : DecodeError}

/-- What is decoded of the first item of some bytes. -/
def Frame.decodeFirst (levels start : Nat) (bytes : Bytes) : Except DecodeError Value :=
  match read bytes with
  | .error flaw => .error (.malformed start flaw.reason)
  | .ok frame => frame.decode levels start

/-- The items behind a word of the format fail as they do without it. -/
theorem decodeItems_append_of_placed {word : Bytes} {value : Value}
    (h : Placed levels start word value) (tail : Bytes)
    (hTail : decodeItems (Frame.decode levels) (start + word.length) tail = .error e) :
    decodeItems (Frame.decode levels) start (word ++ tail) = .error e := by
  obtain ⟨kind, header, payload, hFramed, rfl, hDecode⟩ := accepts_of_placed h
  rw [List.length_append] at hTail
  rw [decodeItems_of_frame (Frame.read_of_framed hFramed tail), hDecode, Frame.length]
  simp only
  rw [hTail]

/-- Decoding item after item fails where the first item fails behind a row of
items that do not. -/
theorem decodeItems_eq_error_iff :
    decodeItems (Frame.decode levels) start bytes = .error e ↔
      ∃ parts tail, Row (Placed levels) start parts ∧ bytes = parts.flatMap Prod.fst ++ tail ∧
        tail ≠ [] ∧ Frame.decodeFirst levels (start + (parts.flatMap Prod.fst).length) tail = .error e := by
  constructor
  · intro h
    fun_induction decodeItems (Frame.decode levels) start bytes with
    | case1 => cases h
    | case2 start bytes hBytes flaw hRead =>
        refine ⟨[], bytes, .nil, rfl, fun hNil => hBytes (List.isEmpty_iff.2 hNil), ?_⟩
        simp only [Frame.decodeFirst, hRead]
        exact congrArg Except.error (Except.error.inj h)
    | case3 start bytes hBytes frame hRead cause hFirst =>
        refine ⟨[], bytes, .nil, rfl, fun hNil => hBytes (List.isEmpty_iff.2 hNil), ?_⟩
        simp only [Frame.decodeFirst, hRead]
        exact hFirst.trans (congrArg Except.error (Except.error.inj h))
    | case4 start bytes hBytes frame hRead first hFirst cause hOthers ih =>
        obtain ⟨word, hWord, hLength, hAccepts⟩ :=
          accepts_of_read (Frame.decode_rest levels) hRead hFirst
        obtain ⟨parts, tail, hRow, hRest, hTail, hFails⟩ := ih (hOthers.trans h)
        rw [← hLength] at hRow hFails
        refine ⟨(word, first) :: parts, tail, row_cons.2 ⟨placed_of_accepts hAccepts, hRow⟩,
          ?_, hTail, ?_⟩
        · rw [List.flatMap_cons, List.append_assoc, ← hRest, ← hWord]
        · rwa [List.flatMap_cons, List.length_append, ← Nat.add_assoc]
    | case5 => cases h
  · rintro ⟨parts, tail, hRow, rfl, hTail, hFirst⟩
    induction parts generalizing start with
    | nil =>
        rw [Frame.decodeFirst] at hFirst
        split at hFirst
        · next flaw hRead =>
            exact (decodeItems_of_flaw hTail hRead).trans
              (congrArg Except.error (Except.error.inj hFirst))
        · next frame hRead =>
            rw [List.flatMap_nil, List.nil_append, decodeItems_of_frame hRead]
            simp only [List.flatMap_nil, List.length_nil, Nat.add_zero] at hFirst
            rw [hFirst]
    | cons part parts ih =>
        obtain ⟨hPlaced, hOthers⟩ := row_cons.1 hRow
        rw [List.flatMap_cons, List.length_append, ← Nat.add_assoc] at hFirst
        rw [List.flatMap_cons, List.append_assoc]
        exact decodeItems_append_of_placed hPlaced _ (ih hOthers hFirst)

end Items

section Blames

variable {data : Bytes} {levels start stop : Nat} {e : DecodeError}

theorem Chain.bounds {count offset inner : Nat} (h : Chain data levels start stop count offset inner)
    (hStop : stop ≤ data.length) : start ≤ offset ∧ inner ≤ stop := by
  induction h with
  | here => exact ⟨Nat.le_refl _, Nat.le_refl _⟩
  | inside hRead hKind hRow hWords hChain ih =>
      have hEnd := add_length_le_of_read hStop hRead
      obtain ⟨hStart, hInner⟩ := ih (Nat.le_trans hEnd hStop)
      omega

/-- A list fails as its elements do. -/
theorem Frame.decode_list_eq_error_iff {frame : Frame} (hKind : frame.kind = .list) :
    frame.decode (levels + 1) start = .error e ↔
      decodeItems (Frame.decode levels) (start + frame.headerLength) frame.payload = .error e := by
  rcases frame with ⟨kind, headerLength, payload, rest⟩
  obtain rfl : kind = .list := hKind
  simp only [Frame.decode]
  cases decodeItems (Frame.decode levels) (start + headerLength) payload with
  | error cause => simp only [Except.error.injEq]
  | ok items => simp only [reduceCtorEq]

theorem unsound_succ_iff {count offset inner : Nat} {reason : String} :
    Unsound data (levels + 1) (count + 1) offset inner reason ↔
      Unsound data levels count offset inner reason := by
  constructor
  · rintro (hRead | ⟨hRead, hKind, hCount⟩)
    · exact .header hRead
    · exact .nesting hRead hKind (Nat.succ.inj hCount)
  · rintro (hRead | ⟨hRead, hKind, hCount⟩)
    · exact .header hRead
    · exact .nesting hRead hKind (congrArg Nat.succ hCount)

theorem blames_of_header {flaw : Flaw} (hInside : start < stop)
    (hRead : Frame.read (visible data start stop) = .error flaw) :
    Blames data levels start stop (.malformed start flaw.reason) :=
  ⟨0, start, stop, flaw.reason, .here levels start stop, hInside, .header hRead, rfl⟩

/-- What is blamed on an element of a list is blamed on the list. -/
theorem Blames.of_element {frame : Frame} {parts : List (Bytes × Value)}
    (hRead : Frame.read (visible data start stop) = .ok frame) (hKind : frame.kind = .list)
    (hRow : Row (Placed levels) (start + frame.headerLength) parts)
    (hWords : parts.flatMap Prod.fst <+: frame.payload)
    (h : Blames data levels (start + frame.headerLength + (parts.flatMap Prod.fst).length)
      (start + frame.length) e) :
    Blames data (levels + 1) start stop e := by
  obtain ⟨count, offset, inner, reason, hChain, hOffset, hUnsound, hBlamed⟩ := h
  exact ⟨count + 1, offset, inner, reason, .inside hRead hKind hRow hWords hChain, hOffset,
    unsound_succ_iff.2 hUnsound, hBlamed⟩

theorem blames_of_decodeFirst (hInside : start < stop) (hStop : stop ≤ data.length)
    (h : Frame.decodeFirst levels start (visible data start stop) = .error e) :
    Blames data levels start stop e := by
  -- an element of a list sees the bytes up to the end of the list, so the end changes as well
  induction levels generalizing start stop with
  | zero =>
      rw [Frame.decodeFirst] at h
      split at h
      · next flaw hRead =>
          obtain rfl := Except.error.inj h
          exact blames_of_header hInside hRead
      · next frame hRead =>
          rcases frame with ⟨_ | _, headerLength, payload, rest⟩
          · cases h
          · obtain rfl := Except.error.inj h
            exact ⟨0, start, stop, _, .here 0 start stop, hInside, .nesting hRead rfl rfl, rfl⟩
  | succ levels ih =>
      rw [Frame.decodeFirst] at h
      split at h
      · next flaw hRead =>
          obtain rfl := Except.error.inj h
          exact blames_of_header hInside hRead
      · next frame hRead =>
          cases hKind : frame.kind with
          | string =>
              rcases frame with ⟨kind, headerLength, payload, rest⟩
              obtain rfl : kind = .string := hKind
              cases h
          | list =>
              obtain ⟨parts, tail, hRow, hPayload, hTail, hFirst⟩ :=
                decodeItems_eq_error_iff.1 ((Frame.decode_list_eq_error_iff hKind).1 h)
              have hEnd := add_length_le_of_read hStop hRead
              have hVisible := eq_visible_of_payload hStop hRead hPayload
              have hPos := List.length_pos_iff.2 hTail
              rw [hVisible] at hFirst hPos
              rw [length_visible (Nat.le_trans hEnd hStop)] at hPos
              have hElement := ih (by omega) (Nat.le_trans hEnd hStop) hFirst
              exact hElement.of_element hRead hKind hRow ⟨tail, hPayload.symm⟩

theorem decodeFirst_of_chain {count offset inner : Nat} {reason : String}
    (hChain : Chain data levels start stop count offset inner) (hStop : stop ≤ data.length)
    (hOffset : offset < inner) (hUnsound : Unsound data levels count offset inner reason) :
    Frame.decodeFirst levels start (visible data start stop) = .error (.malformed offset reason) := by
  induction hChain with
  | here levels start stop =>
      cases hUnsound with
      | header hRead => simp only [Frame.decodeFirst, hRead]
      | @nesting frame hRead hKind hCount =>
          obtain ⟨kind, headerLength, payload, rest⟩ := frame
          obtain rfl : kind = .list := hKind
          obtain rfl : levels = 0 := hCount.symm
          simp only [Frame.decodeFirst, hRead]
          rfl
  | @inside levels start stop count offset inner frame parts hRead hKind hRow hWords hChain ih =>
      obtain ⟨tail, hPayload⟩ := hWords
      have hEnd := Nat.le_trans (add_length_le_of_read hStop hRead) hStop
      have hVisible := eq_visible_of_payload hStop hRead hPayload.symm
      have hFirst := ih hEnd hOffset (unsound_succ_iff.1 hUnsound)
      have hTail : tail ≠ [] := by
        have hBounds := hChain.bounds hEnd
        have hLength := congrArg List.length hVisible
        rw [length_visible hEnd] at hLength
        rintro rfl
        rw [List.length_nil] at hLength
        omega
      rw [← hVisible] at hFirst
      simp only [Frame.decodeFirst, hRead]
      exact (Frame.decode_list_eq_error_iff hKind).2
        (decodeItems_eq_error_iff.2 ⟨parts, tail, hRow, hPayload.symm, hTail, hFirst⟩)

end Blames

mutual

/-- Where the lists start that stand inside `levels` others, for a value that was
read at an offset, in reading order. -/
def Value.listsUnder (data : Bytes) (levels start : Nat) : Value → List Nat
  | .scalar _ _ => []
  | .list _ items =>
      match levels with
      | 0 => [start]
      | levels + 1 => listsUnderAll data levels (start + headerLengthAt data start) items

def Value.listsUnderAll (data : Bytes) (levels start : Nat) : List Value → List Nat
  | [] => []
  | value :: values =>
      value.listsUnder data levels start ++ listsUnderAll data levels value.position values

end

/-- A result that is given up for the first of the lists that are nested too
deep. -/
def unlessTooDeep {α : Type} (lists : List Nat) (a : α) : Except DecodeError α :=
  match lists.head? with
  | none => .ok a
  | some offset => .error (.malformed offset Flaw.nestedTooDeep.reason)

section Nesting

variable {data : Bytes} {levels start : Nat}

/-- A word of the buffer that fails only for lists that are nested too deep. -/
def FailsTooDeep (data : Bytes) (levels start : Nat) (word : Bytes) (value : Value) : Prop :=
  word <+: data.drop start → ∃ kind header payload, Framed kind header payload ∧
    word = header ++ payload ∧
    ∀ rest, Frame.decode levels start ⟨kind, header.length, payload, rest⟩ =
      unlessTooDeep (value.listsUnder data levels start) value

theorem decodeItems_of_failsTooDeep {parts : List (Bytes × Value)}
    (hRow : Row (FailsTooDeep data levels) start parts)
    (hEnds : Row (fun start word value => value.position = start + word.length) start parts)
    (hWords : parts.flatMap Prod.fst <+: data.drop start) :
    decodeItems (Frame.decode levels) start (parts.flatMap Prod.fst) =
      unlessTooDeep (Value.listsUnderAll data levels start (parts.map Prod.snd))
        (parts.map Prod.snd) := by
  induction parts generalizing start with
  | nil => exact decodeItems_nil start
  | cons part parts ih =>
      obtain ⟨hFirst, hOthers⟩ := row_cons.1 hRow
      obtain ⟨hEnd, hOtherEnds⟩ := row_cons.1 hEnds
      rw [List.flatMap_cons] at hWords
      obtain ⟨kind, header, payload, hFramed, hWord, hDecode⟩ :=
        hFirst ((List.prefix_append _ _).trans hWords)
      have hNext := ih hOthers hOtherEnds (prefix_drop_of_append hWords)
      have hRead := Frame.read_of_framed hFramed (parts.flatMap Prod.fst)
      rw [← hWord] at hRead
      have hLength : Frame.length ⟨kind, header.length, payload, parts.flatMap Prod.fst⟩ =
          part.1.length := by
        rw [hWord, List.length_append, Frame.length]
      rw [List.flatMap_cons, List.map_cons, Value.listsUnderAll, decodeItems_of_frame hRead, hDecode,
        hLength, hNext, hEnd]
      -- the first list too deep is in this item, in a later one, or nowhere
      rcases part.2.listsUnder data levels start with _ | ⟨offset, offsets⟩
      · rw [List.nil_append]
        rcases Value.listsUnderAll data levels (start + part.1.length) (parts.map Prod.snd) with
          _ | ⟨offset, offsets⟩ <;> rfl
      · rfl

theorem Placed.failsTooDeep {depth : Nat} {word : Bytes} {value : Value}
    (h : Placed depth start word value) : FailsTooDeep data levels start word value := by
  induction h generalizing levels with
  | @scalar depth start header payload hFramed =>
      intro hWord
      exact ⟨.string, header, payload, hFramed, rfl, Frame.decode_string levels start header payload⟩
  | @list depth start header parts hFramed hParts ih =>
      intro hWord
      refine ⟨.list, header, _, hFramed, rfl, fun rest => ?_⟩
      cases levels with
      | zero => rfl
      | succ levels =>
          have hEnds := hParts.imp fun _ _ _ hPlaced => hPlaced.position_eq
          have hRow : Row (FailsTooDeep data levels) (start + header.length) parts :=
            fun before part after hSplit => ih before part after hSplit
          have hItems := decodeItems_of_failsTooDeep hRow hEnds (prefix_drop_of_append hWord)
          rw [Value.listsUnder, headerLengthAt_of_framed hFramed hWord, List.length_append]
          simp only [Frame.decode, hItems]
          rcases Value.listsUnderAll data levels (start + header.length) (parts.map Prod.snd) with
            _ | ⟨offset, offsets⟩ <;> rfl

end Nesting

section Decode

variable {data : Bytes} {position : Nat} {e : DecodeError}

theorem decode_eq_decodeFirst (h : position < data.length) :
    decode data position =
      Frame.decodeFirst maxNesting position (visible data position data.length) := by
  rw [decode, if_neg (Nat.not_le_of_lt h), visible, List.take_length]
  rfl

theorem decode_eq_error_iff :
    decode data position = .error e ↔
      data.length ≤ position ∧ e = .outOfBounds position data.length ∨
      position < data.length ∧ Blames data maxNesting position data.length e := by
  rcases Nat.lt_or_ge position data.length with hInside | hOutside
  · rw [decode_eq_decodeFirst hInside]
    constructor
    · intro h
      exact .inr ⟨hInside, blames_of_decodeFirst hInside (Nat.le_refl _) h⟩
    · rintro (⟨hOutside, -⟩ | ⟨-, count, offset, inner, reason, hChain, hOffset, hUnsound, rfl⟩)
      · omega
      · exact decodeFirst_of_chain hChain (Nat.le_refl _) hOffset hUnsound
  · rw [decode, if_pos hOutside]
    constructor
    · intro h
      exact .inl ⟨hOutside, (Except.error.inj h).symm⟩
    · rintro (⟨-, rfl⟩ | ⟨hInside, -⟩)
      · rfl
      · omega

/-- A word of the format, however deep its lists are nested, is decoded unless there
are lists inside 1024 others, and then the first of them fails. -/
theorem decode_of_placed_deep {depth : Nat} {word : Bytes} {value : Value}
    (hWord : word <+: data.drop position) (h : Placed depth position word value) :
    decode data position = unlessTooDeep (value.listsUnder data maxNesting position) value := by
  obtain ⟨kind, header, payload, hFramed, hSplit, hDecode⟩ := h.failsTooDeep hWord
  obtain ⟨rest, hData⟩ := hWord
  have hRead := Frame.read_of_framed hFramed rest
  rw [← hSplit, hData] at hRead
  rw [decode, if_neg (Nat.not_le_of_lt (lt_length_of_read hRead)), hRead]
  exact hDecode rest

/-- Decoding fails at or past the end of the buffer, and only there out of bounds.
Inside the buffer it fails if and only if lists inside one another lead to an
unsound item, past sound headers and elements that are words of the format. The
failure then names the offset of that item, which lies in the buffer, and what is
wrong with it. Where a word of the format stands without regard to how deep its
lists are nested, nothing else can be wrong than that, and the failure names the
first list inside 1024 others. -/
theorem failure_names_leftmost_unsound_item (data : Bytes) (position : Nat) :
    (∀ e, decode data position = .error e ↔
      data.length ≤ position ∧ e = .outOfBounds position data.length ∨
      position < data.length ∧ ∃ count offset inner reason,
        Chain data maxNesting position data.length count offset inner ∧
        position ≤ offset ∧ offset < inner ∧ inner ≤ data.length ∧
        Unsound data maxNesting count offset inner reason ∧ e = .malformed offset reason) ∧
    ∀ depth word tree, word <+: data.drop position → Spells depth word tree →
      ∃ value, Placed depth position word value ∧ value.tree = tree ∧
        decode data position =
          match (value.listsUnder data maxNesting position).head? with
          | none => .ok value
          | some offset => .error (.malformed offset Flaw.nestedTooDeep.reason) := by
  refine ⟨fun e => ?_, fun depth word tree hWord hSpells => ?_⟩
  · rw [decode_eq_error_iff]
    refine or_congr Iff.rfl (and_congr_right fun _ => ?_)
    constructor
    · rintro ⟨count, offset, inner, reason, hChain, hOffset, hUnsound, hBlamed⟩
      obtain ⟨hStart, hInner⟩ := hChain.bounds (Nat.le_refl _)
      exact ⟨count, offset, inner, reason, hChain, hStart, hOffset, hInner, hUnsound, hBlamed⟩
    · rintro ⟨count, offset, inner, reason, hChain, -, hOffset, -, hUnsound, hBlamed⟩
      exact ⟨count, offset, inner, reason, hChain, hOffset, hUnsound, hBlamed⟩
  · obtain ⟨value, hPlaced, hTree⟩ := hSpells.placed position
    exact ⟨value, hPlaced, hTree, decode_of_placed_deep hWord hPlaced⟩

/-- A list with a byte and a list, read behind a byte that is skipped. The string in
the inner list lacks a byte, and cannot take the one that comes after the lists. -/
theorem failure_names_leftmost_unsound_item_truncated :
    let data : Bytes := [0xff, 0xc4, 0x05, 0xc2, 0x82, 0x07, 0x08]
    Chain data maxNesting 1 data.length 2 4 6 ∧
      Unsound data maxNesting 2 4 6 Flaw.tooShort.reason ∧
      decode data 1 = .error (.malformed 4 Flaw.tooShort.reason) := by
  intro data
  have hByte : Row (Placed 1023) 2 [([0x05], .scalar 3 (.bytes [0x05]))] :=
    row_cons.2 ⟨.scalar (.itself (by decide)), .nil⟩
  have hInner : Chain data 1023 3 6 1 4 6 := by
    have hRead : Frame.read (visible data 3 6) = .ok ⟨.list, 1, [0x82, 0x07], []⟩ := by decide
    exact .inside hRead rfl .nil (List.nil_prefix) (.here 1022 4 6)
  have hChain : Chain data maxNesting 1 data.length 2 4 6 := by
    have hRead : Frame.read (visible data 1 data.length) =
        .ok ⟨.list, 1, [0x05, 0xc2, 0x82, 0x07], [0x08]⟩ := by decide
    exact .inside hRead rfl hByte ⟨[0xc2, 0x82, 0x07], rfl⟩ hInner
  have hUnsound : Unsound data maxNesting 2 4 6 Flaw.tooShort.reason := .header (by decide)
  refine ⟨hChain, hUnsound, ?_⟩
  exact ((failure_names_leftmost_unsound_item data 1).1 _).2
    (.inr ⟨by decide, 2, 4, 6, _, hChain, by decide, by decide, by decide, hUnsound, rfl⟩)

end Decode

end NodeStore.Rlp
