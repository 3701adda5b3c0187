import NodeStore.Proofs.Rlp.Blame
import NodeStore.Rlp.Scan

/-!
Decoding on a machine and decoding with exact offsets are the same. Below 2^63 bytes
no sum of offsets, lengths or depths is too large for a word, and no range leaves the
slice it is taken of. What a call asks of others is read off its outcome, which hangs on
their answers. Main statement: this holds of every call that decoding makes, each of
which ends, and no more than 1025 of them stand inside one another.
-/

namespace NodeStore.Rlp.Scan

section Word

variable {a b : UInt64} {n : Nat} {bytes : Bytes} {start stop : Nat}

theorem fits_iff : fits a b = true ↔ a.toNat + b.toNat < UInt64.size :=
  decide_eq_true_iff

theorem toNat_add_of_fits (h : fits a b = true) : (a + b).toNat = a.toNat + b.toNat := by
  rw [UInt64.toNat_add]
  exact Nat.mod_eq_of_lt (fits_iff.1 h)

theorem fits_one_of_lt (h : a.toNat < maxNesting) : fits a 1 = true := by
  rw [fits_iff]
  have hSmall : maxNesting < UInt64.size := by decide
  exact Nat.lt_of_le_of_lt h hSmall

theorem add_of_fits (h : fits a b = true) : add a b = pure (a + b) := if_pos h

theorem checkedAdd_of_fits (h : fits a b = true) : checkedAdd a b = some (a + b) := if_pos h

theorem toNat_ofNat (h : n < UInt64.size) : (UInt64.ofNat n).toNat = n :=
  UInt64.toNat_ofNat_of_lt' h

theorem slice_of_le (hStart : start ≤ stop) (hStop : stop ≤ bytes.length) :
    slice bytes start stop = pure (visible bytes start stop) := if_pos ⟨hStart, hStop⟩

end Word

section Header

variable {kind : Kind} {bytes : Bytes}

/-- What a machine knows of a frame before it looks at the payload. -/
def Header.ofFrame (frame : Frame) : Header :=
  ⟨frame.kind, .ofNat frame.headerLength, .ofNat frame.payload.length⟩

theorem Header.within_eq {header : Header} {available : Nat} (hAvailable : available < UInt64.size) :
    header.within available =
      if header.headerLength.toNat + header.payloadLength.toNat ≤ available then .ok header
      else .error .tooShort := by
  rw [within]
  cases hFits : fits header.headerLength header.payloadLength with
  | true => simp only [checkedAdd_of_fits hFits, toNat_add_of_fits hFits]
  | false =>
      have hLarge : ¬header.headerLength.toNat + header.payloadLength.toNat < UInt64.size := by
        rw [← fits_iff, hFits]
        exact Bool.false_ne_true
      rw [if_neg (by omega), checkedAdd, hFits]
      rfl

/-- A machine refuses the same items as too short. -/
theorem Header.within_eq_cut {headerLength payloadLength : Nat}
    (hPayload : payloadLength < UInt64.size) (hBytes : headerLength + bytes.length < UInt64.size) :
    Header.within (headerLength + bytes.length) ⟨kind, .ofNat headerLength, .ofNat payloadLength⟩ =
      (Frame.cut kind headerLength payloadLength bytes).map ofFrame := by
  rw [within_eq hBytes, toNat_ofNat (by omega), toNat_ofNat hPayload]
  simp only [Nat.add_le_add_iff_left, Frame.cut, Bytes.split?, List.length_take]
  by_cases hEnough : payloadLength ≤ bytes.length
  · rw [if_pos hEnough, if_pos (Nat.min_eq_left hEnough)]
    simp only [Except.map, ofFrame, List.length_take, Nat.min_eq_left hEnough]
  · rw [if_neg hEnough, if_neg (by omega)]
    rfl

theorem Header.within_announcedLong {count : Nat} (hCount : count ≤ 8)
    (hLength : 1 + bytes.length < UInt64.size) :
    (announcedLong kind count bytes).bind (within (1 + bytes.length)) =
      (Frame.cutLong kind count bytes).map ofFrame := by
  rw [announcedLong, Frame.cutLong]
  by_cases hZero : bytes.head? = some 0
  · rw [if_pos hZero, if_pos hZero]
    rfl
  · rw [if_neg hZero, if_neg hZero]
    cases hSplit : Bytes.split? count bytes with
    | none => rfl
    | some parts =>
        obtain ⟨digits, rest⟩ := parts
        obtain ⟨rfl, rfl⟩ := Bytes.split?_eq_some hSplit
        have hDigits : Bytes.toNat digits < UInt64.size :=
          Nat.lt_of_lt_of_le (Bytes.toNat_lt digits) (Nat.pow_le_pow_right (by decide) hCount)
        simp only [toNat_ofNat hDigits]
        split
        · rfl
        · rw [List.length_append, ← Nat.add_assoc] at hLength ⊢
          exact within_eq_cut hDigits hLength

/-- The header that a machine reads is that of the frame. -/
theorem Header.read_eq (hLength : bytes.length < UInt64.size) :
    Header.read bytes = (Frame.read bytes).map ofFrame := by
  cases bytes with
  | nil => rfl
  | cons first bytes =>
      rw [List.length_cons, Nat.add_comm] at hLength
      rw [read, announced, Frame.read, List.length_cons, Nat.add_comm]
      cases hLead : Lead.ofByte first with
      | itself =>
          change within (1 + bytes.length) ⟨.string, 0, 1⟩ = _
          rw [within_eq hLength]
          exact if_pos (Nat.le_add_right 1 _)
      | short kind length =>
          have hShort := (Lead.eq_of_ofByte_short hLead).1
          exact within_eq_cut (Nat.lt_of_le_of_lt hShort (by decide)) hLength
      | long kind count => exact within_announcedLong (Lead.eq_of_ofByte_long hLead).2.1 hLength

/-- The same from an offset on. -/
theorem Header.read_visible {start : Nat} (hLength : bytes.length < UInt64.size) :
    Header.read (visible bytes start bytes.length) =
      (Frame.read (visible bytes start bytes.length)).map ofFrame := by
  apply read_eq
  rw [length_visible (Nat.le_refl _)]
  exact Nat.lt_of_le_of_lt (Nat.sub_le _ _) hLength

end Header

/-- What the words of an accepted header add up to is exact and in the slice. -/
structure Header.InSlice (bytes : Bytes) (start : UInt64) (header : Header) : Prop where
  within : start.toNat + header.headerLength.toNat + header.payloadLength.toNat ≤ bytes.length
  add_eq : add start header.headerLength = pure (start + header.headerLength)
  toNat_add : (start + header.headerLength).toNat = start.toNat + header.headerLength.toNat
  /-- The item does not overrun the slice. -/
  payloadStop?_eq : payloadStop? bytes (start + header.headerLength) header =
    some (start + header.headerLength + header.payloadLength)
  toNat_add_add : (start + header.headerLength + header.payloadLength).toNat =
    start.toNat + header.headerLength.toNat + header.payloadLength.toNat
  slice_rest : slice bytes start.toNat bytes.length = pure (visible bytes start.toNat bytes.length)
  slice_payload : ∃ payload, payload.length = header.payloadLength.toNat ∧
    slice bytes (start + header.headerLength).toNat
      (start + header.headerLength + header.payloadLength).toNat = pure payload

/-- A run that gives what was decoded, or halts with what is wrong with it. -/
def ended {α : Type} : Except DecodeError α → Run α
  | .ok a => pure a
  | .error e => throw (.failure e)

theorem ended_injective {α : Type} : Function.Injective (ended (α := α)) := by
  intro result other h
  cases result <;> cases other <;> cases h <;> rfl

section Call

variable {ask : Request → Run Value} {rounds : Nat} {bytes : Bytes} {start depth stop : UInt64}
  {frame : Frame}

theorem decodeBy_of_outside (h : bytes.length ≤ start.toNat) :
    decodeBy ask rounds ⟨bytes, start, depth⟩ =
      throw (.failure (.outOfBounds start.toNat bytes.length)) := by
  rw [decodeBy, if_pos h]

/-- A header that is not accepted ends a call with its flaw, and nothing is asked. -/
theorem decodeBy_of_flaw {flaw : Flaw} (hLength : bytes.length < UInt64.size)
    (hInside : start.toNat < bytes.length)
    (hRead : Frame.read (visible bytes start.toNat bytes.length) = .error flaw) :
    decodeBy ask rounds ⟨bytes, start, depth⟩ =
      throw (.failure (.malformed start.toNat flaw.reason)) := by
  rw [decodeBy, if_neg (Nat.not_le_of_lt hInside),
    slice_of_le (Nat.le_of_lt hInside) (Nat.le_refl _), pure_bind, Header.read_visible hLength, hRead]
  rfl

section Frame

variable (hRead : Frame.read (visible bytes start.toNat bytes.length) = .ok frame)

include hRead

/-- The range that an accepted header gives its payload is inside the slice. -/
theorem slice_of_frame :
    slice bytes (start.toNat + frame.headerLength) (start.toNat + frame.length) =
      pure frame.payload := by
  have hEnd := add_length_le_of_read (Nat.le_refl _) hRead
  have hHeader : frame.headerLength ≤ frame.length := Nat.le_add_right _ _
  have hPayload := eq_visible_of_payload (Nat.le_refl _) hRead (List.nil_append frame.payload).symm
  rw [List.length_nil, Nat.add_zero] at hPayload
  rw [slice_of_le (Nat.add_le_add_left hHeader _) hEnd, ← hPayload]

variable (hLength : bytes.length < UInt64.size)

include hLength

theorem read_of_frame :
    Header.read (visible bytes start.toNat bytes.length) = .ok (.ofFrame frame) := by
  rw [Header.read_visible hLength, hRead]
  rfl

/-- The two sums that are made of an offset and a header are words. -/
theorem fits_of_frame :
    let header := Header.ofFrame frame
    fits start header.headerLength = true ∧
      fits (start + header.headerLength) header.payloadLength = true ∧
      (start + header.headerLength).toNat = start.toNat + frame.headerLength ∧
      (start + header.headerLength + header.payloadLength).toNat = start.toNat + frame.length := by
  intro header
  have hEnd := add_length_le_of_read (Nat.le_refl _) hRead
  rw [Frame.length] at hEnd ⊢
  have hHeader : header.headerLength.toNat = frame.headerLength := toNat_ofNat (by omega)
  have hPayload : header.payloadLength.toNat = frame.payload.length := toNat_ofNat (by omega)
  have hFits : fits start header.headerLength = true := by
    rw [fits_iff]
    omega
  have hStart := toNat_add_of_fits hFits
  have hFitsStop : fits (start + header.headerLength) header.payloadLength = true := by
    rw [fits_iff]
    omega
  have hStop := toNat_add_of_fits hFitsStop
  exact ⟨hFits, hFitsStop, by omega, by omega⟩

theorem Header.inSlice_ofFrame : (ofFrame frame).InSlice bytes start := by
  have hEnd := add_length_le_of_read (Nat.le_refl _) hRead
  obtain ⟨hFits, hFitsStop, hStart, hStop⟩ := fits_of_frame hRead hLength
  have hSum := toNat_add_of_fits hFits
  have hSumStop := toNat_add_of_fits hFitsStop
  constructor
  case within => omega
  case add_eq => exact add_of_fits hFits
  case toNat_add => exact hSum
  case payloadStop?_eq =>
    rw [payloadStop?, checkedAdd_of_fits hFitsStop]
    exact if_pos (by omega)
  case toNat_add_add => rw [hSumStop, hSum]
  case slice_rest => exact slice_of_le (by omega) (Nat.le_refl _)
  case slice_payload =>
    refine ⟨frame.payload, ?_, ?_⟩
    · rw [Frame.length] at hStop
      omega
    · rw [hStart, hStop]
      exact slice_of_frame hRead

/-- A sound item in a slice is a scalar, or a list whose elements are decoded, unless
it is nested too deep. -/
theorem decodeBy_of_frame :
    let header := Header.ofFrame frame
    decodeBy ask rounds ⟨bytes, start, depth⟩ =
      match frame.kind with
      | .string => pure (.scalar (start.toNat + frame.length) (.bytes frame.payload))
      | .list =>
          if maxNesting ≤ depth.toNat then
            throw (.failure (.malformed start.toNat Flaw.nestedTooDeep.reason))
          else do
            let items ← decodeUpTo ask bytes (start + header.headerLength + header.payloadLength)
              depth rounds (start + header.headerLength)
            return .list (start.toNat + frame.length) items := by
  intro header
  have hSlice := Header.inSlice_ofFrame hRead hLength
  obtain ⟨-, -, hStart, hStop⟩ := fits_of_frame hRead hLength
  have hPos := Frame.length_pos_of_read hRead
  have hEnd := add_length_le_of_read (Nat.le_refl _) hRead
  rw [decodeBy, if_neg (by omega), hSlice.slice_rest, pure_bind, read_of_frame hRead hLength]
  simp only [hSlice.add_eq, pure_bind, hSlice.payloadStop?_eq, hStart, hStop, slice_of_frame hRead]
  rfl

end Frame

theorem rest_eq_visible {data : Bytes} {start stop : Nat}
    (hRead : Frame.read (visible data start stop) = .ok frame) :
    frame.rest = visible data (start + frame.length) stop := by
  obtain ⟨header, -, hHeader, hBytes⟩ := Frame.framed_of_read hRead
  rw [visible, ← List.drop_drop, ← visible, hBytes, Frame.length, ← hHeader, ← List.length_append,
    List.drop_left]

/-- An item ends past its start and not past the end of what it sees. -/
theorem position_of_decodeFirst {data : Bytes} {levels start stop : Nat} {item : Value}
    (hStop : stop ≤ data.length)
    (h : Frame.decodeFirst levels start (visible data start stop) = .ok item) :
    start < item.position ∧ item.position ≤ stop := by
  rw [Frame.decodeFirst] at h
  split at h
  · cases h
  · next frame hRead =>
      have hPosition := Frame.position_of_decode h
      have hPos := Frame.length_pos_of_read hRead
      have hEnd := add_length_le_of_read hStop hRead
      omega

/-- Where one more list is allowed, the depth inside of it is a word. -/
theorem toNat_deeper {levels : Nat} (h : depth.toNat + (levels + 1) = maxNesting) :
    fits depth 1 = true ∧ (depth + 1).toNat + levels = maxNesting := by
  have hFits : fits depth 1 = true := fits_one_of_lt (by omega)
  refine ⟨hFits, ?_⟩
  rw [toNat_add_of_fits hFits]
  change depth.toNat + 1 + levels = maxNesting
  omega

/-- What is asked for an element of a list that ends at `stop` is answered by what is
decoded there, with `levels` more lists. -/
def Answers (ask : Request → Run Value) (levels : Nat) (bytes : Bytes) (stop deeper : UInt64) :
    Prop :=
  ∀ cursor, cursor < stop →
    ask ⟨visible bytes 0 stop.toNat, cursor, deeper⟩ =
      ended (Frame.decodeFirst levels cursor.toNat (visible bytes cursor.toNat stop.toNat))

/-- An element ends past its start and not past the end of the list. -/
theorem Answers.bounds {levels : Nat} {cursor deeper : UInt64} {item : Value}
    (h : Answers ask levels bytes stop deeper) (hStop : stop.toNat ≤ bytes.length)
    (hMore : cursor < stop)
    (hItem : ask ⟨visible bytes 0 stop.toNat, cursor, deeper⟩ = pure item) :
    cursor.toNat < item.position ∧ item.position ≤ stop.toNat := by
  rw [h cursor hMore] at hItem
  have hFirst :
      Frame.decodeFirst levels cursor.toNat (visible bytes cursor.toNat stop.toNat) = .ok item :=
    ended_injective hItem
  exact position_of_decodeFirst hStop hFirst

/-- A loop over the elements ends with what is decoded there, after not more rounds
than there are bytes, and one to leave it. -/
theorem decodeUpTo_of_answers {levels : Nat} (hFits : fits depth 1 = true)
    (hLength : bytes.length < UInt64.size) (hStop : stop.toNat ≤ bytes.length)
    (hAnswers : Answers ask levels bytes stop (depth + 1)) {cursor : UInt64}
    (hRounds : stop.toNat - cursor.toNat < rounds) :
    decodeUpTo ask bytes stop depth rounds cursor =
      ended (decodeItems (Frame.decode levels) cursor.toNat
        (visible bytes cursor.toNat stop.toNat)) := by
  induction rounds generalizing cursor with
  | zero => exact absurd hRounds (Nat.not_lt_zero _)
  | succ rounds ih =>
      have hVisible : (visible bytes cursor.toNat stop.toNat).length = stop.toNat - cursor.toNat :=
        length_visible hStop
      rw [decodeUpTo]
      by_cases hMore : cursor < stop
      · have hCursor := UInt64.lt_iff_toNat_lt.1 hMore
        have hBytes : visible bytes cursor.toNat stop.toNat ≠ [] := by
          apply List.length_pos_iff.1
          omega
        rw [if_pos hMore, slice_of_le (Nat.zero_le _) hStop, pure_bind, add_of_fits hFits, pure_bind,
          hAnswers cursor hMore, Frame.decodeFirst]
        cases hRead : Frame.read (visible bytes cursor.toNat stop.toNat) with
        | error flaw =>
            rw [decodeItems_of_flaw hBytes hRead]
            rfl
        | ok frame =>
            rw [decodeItems_of_frame hRead]
            simp only
            cases hFirst : frame.decode levels cursor.toNat with
            | error e => rfl
            | ok item =>
                have hItem := Frame.position_of_decode hFirst
                have hEnd := add_length_le_of_read hStop hRead
                have hPos := Frame.length_pos_of_read hRead
                have hNext : (UInt64.ofNat item.position).toNat = cursor.toNat + frame.length := by
                  rw [hItem, toNat_ofNat (by omega)]
                have hLeft : stop.toNat - (UInt64.ofNat item.position).toNat < rounds := by omega
                have hRest := ih hLeft
                rw [hNext, ← rest_eq_visible hRead] at hRest
                simp only [ended, pure_bind, hRest]
                cases decodeItems (Frame.decode levels) (cursor.toNat + frame.length) frame.rest with
                | error e => rfl
                | ok items => rfl
      · have hDone : visible bytes cursor.toNat stop.toNat = [] := by
          rw [UInt64.lt_iff_toNat_lt] at hMore
          apply List.length_eq_zero_iff.1
          omega
        rw [if_neg hMore, hDone, decodeItems_nil]
        rfl

theorem decodeUpTo_payload {levels : Nat} (hFits : fits depth 1 = true)
    (hRead : Frame.read (visible bytes start.toNat bytes.length) = .ok frame)
    (hLength : bytes.length < UInt64.size) (hRounds : bytes.length < rounds)
    (hAnswers : let header := Header.ofFrame frame
      Answers ask levels bytes (start + header.headerLength + header.payloadLength) (depth + 1)) :
    let header := Header.ofFrame frame
    decodeUpTo ask bytes (start + header.headerLength + header.payloadLength) depth rounds
        (start + header.headerLength) =
      ended (decodeItems (Frame.decode levels) (start.toNat + frame.headerLength) frame.payload) := by
  intro header
  have hEnd := add_length_le_of_read (Nat.le_refl _) hRead
  have hPayload := eq_visible_of_payload (Nat.le_refl _) hRead (List.nil_append frame.payload).symm
  rw [List.length_nil, Nat.add_zero] at hPayload
  obtain ⟨-, -, hStart, hStop⟩ := fits_of_frame hRead hLength
  rw [decodeUpTo_of_answers hFits hLength (hStop.trans_le hEnd) hAnswers (by omega), hStart, hStop,
    ← hPayload]

end Call

/-- Where the cursor of a loop comes by that starts at `first` and decodes `items`: it
moves to the end of each. -/
def cursors (first : UInt64) (items : List Value) : List UInt64 :=
  first :: items.map fun item => .ofNat item.position

theorem bind_eq_pure {α β : Type} {run : Run α} {next : α → Run β} {b : β}
    (h : run >>= next = pure b) : ∃ a, run = pure a ∧ next a = pure b := by
  rcases run with _ | _ | a
  · cases h
  · cases h
  · exact ⟨a, rfl, h⟩

section Loop

variable {ask : Request → Run Value} {rounds levels : Nat} {bytes : Bytes}
  {depth stop cursor : UInt64}

/-- A loop that is left makes progress in each round, and is left at the end of the
list. -/
theorem cursors_of_decodeUpTo {items : List Value} (hFits : fits depth 1 = true)
    (hLength : bytes.length < UInt64.size) (hStop : stop.toNat ≤ bytes.length)
    (hAnswers : Answers ask levels bytes stop (depth + 1)) (hCursor : cursor ≤ stop)
    (h : decodeUpTo ask bytes stop depth rounds cursor = pure items) :
    (cursors cursor items).IsChain (· < ·) ∧ (cursors cursor items).getLast? = some stop := by
  induction rounds generalizing cursor items with
  | zero => cases h
  | succ rounds ih =>
      rw [decodeUpTo] at h
      by_cases hMore : cursor < stop
      · rw [if_pos hMore, slice_of_le (Nat.zero_le _) hStop, pure_bind, add_of_fits hFits,
          pure_bind] at h
        obtain ⟨item, hItem, h⟩ := bind_eq_pure h
        obtain ⟨others, hOthers, h⟩ := bind_eq_pure h
        cases h
        obtain ⟨hStart, hEnd⟩ := hAnswers.bounds hStop hMore hItem
        have hNext : (UInt64.ofNat item.position).toNat = item.position := toNat_ofNat (by omega)
        obtain ⟨hChain, hLast⟩ := ih (UInt64.le_iff_toNat_le.2 (hNext.trans_le hEnd)) hOthers
        refine ⟨List.isChain_cons_cons.2 ⟨?_, hChain⟩, hLast⟩
        rw [UInt64.lt_iff_toNat_lt, hNext]
        exact hStart
      · rw [if_neg hMore] at h
        cases h
        have hDone : cursor = stop := UInt64.le_antisymm hCursor (UInt64.not_lt.1 hMore)
        exact ⟨List.isChain_singleton _, congrArg some hDone⟩

/-- Two loops are the same whose elements are answered alike, from the first cursor on. -/
theorem decodeUpTo_congr {other : Request → Run Value} {first : UInt64} (rounds : Nat)
    (hFits : fits depth 1 = true) (hLength : bytes.length < UInt64.size)
    (hStop : stop.toNat ≤ bytes.length) (hAnswers : Answers ask levels bytes stop (depth + 1))
    (hOther : ∀ cursor, first ≤ cursor → cursor < stop →
      other ⟨visible bytes 0 stop.toNat, cursor, depth + 1⟩ =
        ask ⟨visible bytes 0 stop.toNat, cursor, depth + 1⟩)
    (hCursor : first ≤ cursor) :
    decodeUpTo other bytes stop depth rounds cursor =
      decodeUpTo ask bytes stop depth rounds cursor := by
  induction rounds generalizing cursor with
  | zero => rfl
  | succ rounds ih =>
      rw [decodeUpTo, decodeUpTo]
      by_cases hMore : cursor < stop
      · rw [if_pos hMore, if_pos hMore, slice_of_le (Nat.zero_le _) hStop, pure_bind,
          add_of_fits hFits, pure_bind, pure_bind, pure_bind, hOther cursor hCursor hMore]
        cases hItem : ask ⟨visible bytes 0 stop.toNat, cursor, depth + 1⟩ with
        | none => rfl
        | some result =>
            cases result with
            | error halt => rfl
            | ok item =>
                obtain ⟨hStart, hEnd⟩ := hAnswers.bounds hStop hMore hItem
                have hNext : first ≤ .ofNat item.position := by
                  rw [UInt64.le_iff_toNat_le, toNat_ofNat (by omega)]
                  exact Nat.le_trans (UInt64.le_iff_toNat_le.1 hCursor) (Nat.le_of_lt hStart)
                exact congrArg (· >>= fun items => pure (item :: items)) (ih hNext)
      · rw [if_neg hMore, if_neg hMore]

/-- So it makes no difference to a loop what a request is answered that it does not
make. -/
theorem decodeUpTo_update {first : UInt64} {inner : Request} (answer : Run Value) (rounds : Nat)
    (hFits : fits depth 1 = true) (hLength : bytes.length < UInt64.size)
    (hStop : stop.toNat ≤ bytes.length) (hAnswers : Answers ask levels bytes stop (depth + 1))
    (hInner : ∀ cursor, first ≤ cursor → cursor < stop →
      ⟨visible bytes 0 stop.toNat, cursor, depth + 1⟩ ≠ inner) :
    decodeUpTo (Function.update ask inner answer) bytes stop depth rounds first =
      decodeUpTo ask bytes stop depth rounds first := by
  apply decodeUpTo_congr rounds hFits hLength hStop hAnswers _ (UInt64.le_refl _)
  intro cursor hStart hMore
  exact Function.update_of_ne (hInner cursor hStart hMore) answer ask

end Loop

section Nesting

variable {rounds nesting levels : Nat} {bytes : Bytes} {start depth stop deeper : UInt64}

/-- Where `nesting` calls may stand inside one another, an item is decoded that may hold
fewer lists inside one another, or what is wrong with it is found. -/
def Decodes (rounds nesting : Nat) : Prop :=
  ∀ (levels : Nat) (depth : UInt64) (bytes : Bytes) (start : UInt64),
    levels < nesting → depth.toNat + levels = maxNesting →
    bytes.length < UInt64.size → bytes.length < rounds → start.toNat < bytes.length →
      decodeAt rounds nesting ⟨bytes, start, depth⟩ =
        ended (Frame.decodeFirst levels start.toNat (visible bytes start.toNat bytes.length))

theorem Decodes.answers (h : Decodes rounds nesting) (hNesting : levels < nesting)
    (hDepth : deeper.toNat + levels = maxNesting) (hLength : bytes.length < UInt64.size)
    (hRounds : bytes.length < rounds) (hStop : stop.toNat ≤ bytes.length) :
    Answers (decodeAt rounds nesting) levels bytes stop deeper := by
  intro cursor hMore
  have hCursor := UInt64.lt_iff_toNat_lt.1 hMore
  have hSlice : (visible bytes 0 stop.toNat).length = stop.toNat := length_visible hStop
  rw [h levels deeper _ cursor hNesting hDepth (by omega) (by omega) (by omega), visible,
    List.take_length, visible, visible, List.drop_zero]

theorem decodes_succ (h : Decodes rounds nesting) : Decodes rounds (nesting + 1) := by
  intro levels depth bytes start hNesting hDepth hLength hRounds hInside
  rw [decodeAt, Frame.decodeFirst]
  cases hRead : Frame.read (visible bytes start.toNat bytes.length) with
  | error flaw => exact decodeBy_of_flaw hLength hInside hRead
  | ok frame =>
      rw [decodeBy_of_frame hRead hLength]
      have hSlice := Header.inSlice_ofFrame hRead hLength
      rcases frame with ⟨_ | _, headerLength, payload, rest⟩
      case string => cases levels <;> rfl
      case list =>
        cases levels with
        | zero => exact if_pos (Nat.le_of_eq hDepth.symm)
        | succ levels =>
            obtain ⟨hFits, hDeeper⟩ := toNat_deeper hDepth
            have hAnswers := h.answers (Nat.lt_of_succ_lt_succ hNesting) hDeeper hLength hRounds
              (hSlice.toNat_add_add.trans_le hSlice.within)
            have hItems := decodeUpTo_payload hFits hRead hLength hRounds hAnswers
            simp only [hItems, Frame.decode]
            rw [if_neg (by omega)]
            cases decodeItems (Frame.decode levels) (start.toNat + headerLength) payload with
            | error e => rfl
            | ok items => rfl

/-- With enough rounds and nesting, a call ends as decoding its item does. -/
theorem decodes (rounds nesting : Nat) : Decodes rounds nesting := by
  induction nesting with
  | zero =>
      intro levels depth bytes start hNesting
      exact absurd hNesting (Nat.not_lt_zero _)
  | succ nesting ih => exact decodes_succ ih

/-- Calls for items inside of not too many lists end, and what they give ends past its
start and inside the slice. -/
theorem decodeAt_ends (hNesting : levels < nesting) (hDepth : depth.toNat + levels = maxNesting)
    (hLength : bytes.length < UInt64.size) (hRounds : bytes.length < rounds) :
    ∃ result, decodeAt rounds nesting ⟨bytes, start, depth⟩ = ended result ∧
      ∀ item, result = .ok item → start.toNat < item.position ∧ item.position ≤ bytes.length := by
  rcases Nat.lt_or_ge start.toNat bytes.length with hInside | hOutside
  · exact ⟨_, decodes rounds nesting levels depth bytes start hNesting hDepth hLength hRounds hInside,
      fun item => position_of_decodeFirst (Nat.le_refl _)⟩
  · obtain ⟨nesting, rfl⟩ := Nat.exists_eq_add_one.2 (Nat.zero_lt_of_lt hNesting)
    refine ⟨.error _, decodeBy_of_outside hOutside, ?_⟩
    intro item hItem
    cases hItem

/-- On words, with enough rounds and nesting, a run ends as decoding does. -/
theorem decodeAt_eq_decode {data : Bytes} (hLength : data.length < UInt64.size)
    (hRounds : data.length < rounds) (hNesting : maxNesting < nesting) (position : UInt64) :
    decodeAt rounds nesting ⟨data, position, 0⟩ = ended (decode data position.toNat) := by
  rcases Nat.lt_or_ge position.toNat data.length with hInside | hOutside
  · rw [decode_eq_decodeFirst hInside]
    exact decodes rounds nesting maxNesting 0 data position hNesting (Nat.zero_add _) hLength hRounds
      hInside
  · obtain ⟨nesting, rfl⟩ := Nat.exists_eq_add_one.2 (Nat.zero_lt_of_lt hNesting)
    rw [decodeAt, decodeBy_of_outside hOutside, decode, if_pos hOutside]
    rfl

end Nesting

/-- A call asks for what its outcome hangs on: with another answer to `inner` it would
end otherwise. -/
def Asks (ask : Request → Run Value) (rounds : Nat) (request inner : Request) : Prop :=
  ∃ answer, decodeBy (Function.update ask inner answer) rounds request ≠ decodeBy ask rounds request

/-- The calls that decoding the item at `position` makes, with how many calls may still
stand inside one another, each of them counted. -/
inductive Calls (rounds : Nat) (data : Bytes) (position : UInt64) :
    (nesting : Nat) → (request : Request) → Prop where
  | outermost : Calls rounds data position 1025 ⟨data, position, 0⟩
  | inner {nesting : Nat} {request inner : Request}
      (hCall : Calls rounds data position (nesting + 1) request)
      (hAsks : Asks (decodeAt rounds nesting) rounds request inner) :
      Calls rounds data position nesting inner

/-- What a call asks for is an element of a list that it has accepted the header of, in
the slice that ends where the list does. -/
structure Request.IsElement (request inner : Request) (header : Header) : Prop where
  read_eq :
    Header.read (visible request.bytes request.position.toNat request.bytes.length) = .ok header
  kind_eq : header.kind = .list
  depth_lt : request.depth.toNat < maxNesting
  bytes_eq : inner.bytes = visible request.bytes 0
    (request.position + header.headerLength + header.payloadLength).toNat
  depth_eq : inner.depth = request.depth + 1
  le_position : request.position + header.headerLength ≤ inner.position
  position_lt : inner.position < request.position + header.headerLength + header.payloadLength

section Calls

variable {data bytes : Bytes} {position start depth : UInt64} {rounds nesting levels : Nat}
  {header : Header}

theorem Header.inSlice (hLength : bytes.length < UInt64.size)
    (h : Header.read (visible bytes start.toNat bytes.length) = .ok header) :
    header.InSlice bytes start := by
  rw [read_visible hLength] at h
  cases hRead : Frame.read (visible bytes start.toNat bytes.length) with
  | error flaw =>
      rw [hRead] at h
      cases h
  | ok frame =>
      rw [hRead] at h
      cases h
      exact inSlice_ofFrame hRead hLength

theorem Decodes.answers_of_read (h : Decodes rounds nesting) (hLevels : levels < nesting)
    (hDepth : depth.toNat + (levels + 1) = maxNesting) (hLength : bytes.length < UInt64.size)
    (hRounds : bytes.length < rounds)
    (hRead : Header.read (visible bytes start.toNat bytes.length) = .ok header) :
    Answers (decodeAt rounds nesting) levels bytes
      (start + header.headerLength + header.payloadLength) (depth + 1) := by
  have hSlice := Header.inSlice hLength hRead
  exact h.answers hLevels (toNat_deeper hDepth).2 hLength hRounds
    (hSlice.toNat_add_add.trans_le hSlice.within)

/-- A call asks for elements only, and for none if that would be too deep. -/
theorem Asks.isElement {inner : Request} (hLength : bytes.length < UInt64.size)
    (hRounds : bytes.length < rounds) (hDepth : depth.toNat + nesting = maxNesting)
    (h : Asks (decodeAt rounds nesting) rounds ⟨bytes, start, depth⟩ inner) :
    ∃ header, Request.IsElement ⟨bytes, start, depth⟩ inner header := by
  obtain ⟨answer, hDiffers⟩ := h
  by_contra hNone
  apply hDiffers
  rcases Nat.lt_or_ge start.toNat bytes.length with hInside | hOutside
  · cases hRead : Frame.read (visible bytes start.toNat bytes.length) with
    | error flaw => rw [decodeBy_of_flaw hLength hInside hRead, decodeBy_of_flaw hLength hInside hRead]
    | ok frame =>
        rw [decodeBy_of_frame hRead hLength, decodeBy_of_frame hRead hLength]
        cases hKind : frame.kind with
        | string => rfl
        | list =>
            by_cases hDeep : maxNesting ≤ depth.toNat
            · simp only [if_pos hDeep]
            · obtain ⟨levels, rfl⟩ : ∃ levels, nesting = levels + 1 :=
                Nat.exists_eq_add_one.2 (by omega)
              let first := start + (Header.ofFrame frame).headerLength
              let stop := first + (Header.ofFrame frame).payloadLength
              have hHeader := read_of_frame hRead hLength
              have hSlice := Header.inSlice_ofFrame hRead hLength
              have hStop : stop.toNat ≤ bytes.length := hSlice.toNat_add_add.trans_le hSlice.within
              have hAnswers := (decodes rounds _).answers_of_read (Nat.lt_succ_self levels) hDepth
                hLength hRounds hHeader
              -- The request that another answer was put in for is none of the loop's.
              have hInner : ∀ cursor, first ≤ cursor → cursor < stop →
                  ⟨visible bytes 0 stop.toNat, cursor, depth + 1⟩ ≠ inner := by
                rintro cursor hStart hMore rfl
                exact hNone ⟨_, hHeader, hKind, Nat.lt_of_not_le hDeep, rfl, rfl, hStart, hMore⟩
              have hLoop := decodeUpTo_update answer rounds (toNat_deeper hDepth).1 hLength hStop
                hAnswers hInner
              simp only [if_neg hDeep]
              rw [hLoop]
  · rw [decodeBy_of_outside hOutside, decodeBy_of_outside hOutside]

/-- Each call is inside as many others as the depth of its item says. -/
theorem Calls.depth_add {request : Request} (h : Calls rounds data position nesting request)
    (hLength : data.length < UInt64.size) (hRounds : data.length < rounds) :
    request.bytes.length ≤ data.length ∧
      ∃ inside, nesting = inside + 1 ∧ request.depth.toNat + inside = maxNesting := by
  induction h with
  | outermost => exact ⟨Nat.le_refl _, 1024, rfl, rfl⟩
  | @inner nesting request inner hCall hAsks ih =>
      obtain ⟨hBytes, inside, hNesting, hDepth⟩ := ih
      cases hNesting
      obtain ⟨header, hElement⟩ := hAsks.isElement (Nat.lt_of_le_of_lt hBytes hLength)
        (Nat.lt_of_le_of_lt hBytes hRounds) hDepth
      have hLess : request.depth.toNat < maxNesting := hElement.depth_lt
      obtain ⟨inside, rfl⟩ : ∃ inside, nesting = inside + 1 := Nat.exists_eq_add_one.2 (by omega)
      refine ⟨?_, inside, rfl, ?_⟩
      · rw [hElement.bytes_eq]
        exact Nat.le_trans (List.length_take_le' _ _) hBytes
      · rw [hElement.depth_eq]
        exact (toNat_deeper hDepth).2

end Calls

/-- Decoding a buffer of less than 2^63 bytes ends at any offset, and never in a
trap: it gives what is decoded with exact offsets, or halts with what is wrong. It
is not broken off where 1025 calls may stand inside one another, and each loop may go
round once for each byte, and once more to be left.

Every call that is made on the way ends in the same way, and as many calls stand
around it as the depth of its item says. It asks for elements of its list only.
Once its header is accepted, the item is in the slice that the call sees: no sum
wraps, no range leaves the slice, and the item does not overrun it. Each element
of a list ends past the cursor and not past the end of the list, which is where the
cursor stands when the loop is left. -/
theorem every_call_ends_in_its_slice {data : Bytes} (hLength : data.length < 2 ^ 63)
    (position : UInt64) {rounds : Nat} (hRounds : data.length < rounds) :
    (∀ nesting, 1025 ≤ nesting →
      decodeAt rounds nesting ⟨data, position, 0⟩ = ended (decode data position.toNat)) ∧
    ∀ nesting request, Calls rounds data position nesting request →
      ∃ inside, nesting = inside + 1 ∧ request.depth.toNat + nesting = 1025 ∧
        (∃ result, decodeAt rounds nesting request = ended result ∧
          ∀ item, result = .ok item →
            request.position.toNat < item.position ∧ item.position ≤ request.bytes.length) ∧
        (∀ inner, Asks (decodeAt rounds inside) rounds request inner →
          ∃ header, request.IsElement inner header) ∧
        ∀ header,
          Header.read (visible request.bytes request.position.toNat request.bytes.length) = .ok header →
            header.InSlice request.bytes request.position ∧
            (header.kind = .list → request.depth.toNat < maxNesting →
              let first := request.position + header.headerLength
              let stop := first + header.payloadLength
              (∀ cursor item, cursor < stop →
                decodeAt rounds inside
                    ⟨visible request.bytes 0 stop.toNat, cursor, request.depth + 1⟩ = pure item →
                  cursor.toNat < item.position ∧ item.position ≤ stop.toNat) ∧
              ∃ result,
                decodeUpTo (decodeAt rounds inside) request.bytes stop request.depth rounds first =
                  ended result ∧
                ∀ items, result = .ok items →
                  (cursors first items).IsChain (· < ·) ∧
                    (cursors first items).getLast? = some stop) := by
  have hData : data.length < UInt64.size := Nat.lt_trans hLength (by decide)
  refine ⟨fun nesting hNesting => decodeAt_eq_decode hData hRounds hNesting position, ?_⟩
  intro nesting request hCall
  obtain ⟨hBytes, inside, rfl, hDepth⟩ := hCall.depth_add hData hRounds
  have hSize := Nat.lt_of_le_of_lt hBytes hData
  have hTurns := Nat.lt_of_le_of_lt hBytes hRounds
  refine ⟨inside, rfl, congrArg (· + 1) hDepth, ?_, ?_, ?_⟩
  · exact decodeAt_ends (Nat.lt_succ_self inside) hDepth hSize hTurns
  · intro inner hAsks
    exact hAsks.isElement hSize hTurns hDepth
  · intro header hRead
    have hSlice := Header.inSlice hSize hRead
    refine ⟨hSlice, ?_⟩
    intro hKind hDeep first stop
    obtain ⟨levels, rfl⟩ : ∃ levels, inside = levels + 1 := Nat.exists_eq_add_one.2 (by omega)
    have hStop : stop.toNat ≤ request.bytes.length := hSlice.toNat_add_add.trans_le hSlice.within
    have hAnswers := (decodes rounds _).answers_of_read (Nat.lt_succ_self levels) hDepth hSize
      hTurns hRead
    refine ⟨fun cursor item hMore => hAnswers.bounds hStop hMore, ?_⟩
    obtain ⟨hFits, -⟩ := toNat_deeper hDepth
    have hLoop := decodeUpTo_of_answers hFits hSize hStop hAnswers
      (Nat.lt_of_le_of_lt (Nat.sub_le stop.toNat first.toNat) (Nat.lt_of_le_of_lt hStop hTurns))
    refine ⟨_, hLoop, ?_⟩
    intro items hItems
    have hFirst : first ≤ stop := by
      rw [UInt64.le_iff_toNat_le]
      change first.toNat ≤ (request.position + header.headerLength + header.payloadLength).toNat
      have hSum := hSlice.toNat_add
      have hSumStop := hSlice.toNat_add_add
      change first.toNat = _ at hSum
      omega
    rw [hItems] at hLoop
    exact cursors_of_decodeUpTo hFits hSize hStop hAnswers hFirst hLoop

/-- A list in a list, read behind a byte that is skipped: the inner list is decoded
by a call inside the first one, in a slice that ends where the outer list does. -/
theorem every_call_ends_in_its_slice_nested :
    let data : Bytes := [0xff, 0xc3, 0xc1, 0x05, 0x06, 0x00]
    data.length < 2 ^ 63 ∧
      decodeAt 7 1025 ⟨data, 1, 0⟩ =
        pure (.list 5 [.list 4 [.scalar 4 (.bytes [0x05])], .scalar 5 (.bytes [0x06])]) ∧
      Calls 7 data 1 1024 ⟨visible data 0 5, 2, 1⟩ ∧
      Header.InSlice (visible data 0 5) 2 ⟨.list, 1, 1⟩ := by
  intro data
  have hLength : data.length < 2 ^ 63 := by decide
  obtain ⟨hEnds, hCalls⟩ := every_call_ends_in_its_slice hLength 1 (by decide : data.length < 7)
  have hDecode : decode data (1 : UInt64).toNat =
      .ok (.list 5 [.list 4 [.scalar 4 (.bytes [0x05])], .scalar 5 (.bytes [0x06])]) := by cbv
  have hOuter := hEnds 1025 (Nat.le_refl _)
  rw [hDecode] at hOuter
  have hAsks : Asks (decodeAt 7 1024) 7 ⟨data, 1, 0⟩ ⟨visible data 0 5, 2, 1⟩ := by
    refine ⟨brokenOff, ?_⟩
    have hBroken : decodeBy (Function.update (decodeAt 7 1024) ⟨visible data 0 5, 2, 1⟩ brokenOff) 7
        ⟨data, 1, 0⟩ = brokenOff := by cbv
    rw [hBroken]
    change brokenOff ≠ decodeAt 7 1025 ⟨data, 1, 0⟩
    rw [hOuter]
    intro hSame
    cases hSame
  have hCall : Calls 7 data 1 1024 ⟨visible data 0 5, 2, 1⟩ := .inner .outermost hAsks
  have hInner : Header.read (visible (visible data 0 5) (2 : UInt64).toNat (visible data 0 5).length) =
      .ok ⟨.list, 1, 1⟩ := by cbv
  obtain ⟨inside, -, -, -, -, hSlice⟩ := hCalls 1024 _ hCall
  exact ⟨hLength, hOuter, hCall, (hSlice _ hInner).1⟩

end NodeStore.Rlp.Scan
