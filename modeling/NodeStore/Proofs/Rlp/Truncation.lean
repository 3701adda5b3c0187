import NodeStore.Proofs.Rlp.Recognition

/-!
Buffers that end too early, and buffers that grow. What is read of an item does
not depend on the bytes after it, and nor does what is wrong with it, unless
bytes are missing. Main statement: a longer buffer makes a difference only to an
item that is too short itself.
-/

namespace NodeStore.Rlp

namespace Frame

variable {kind : Kind} {count n : Nat} {bytes : Bytes} {frame : Frame} {flaw : Flaw}

theorem eq_tooShort_of_cut {headerLength payloadLength : Nat}
    (h : cut kind headerLength payloadLength bytes = .error flaw) : flaw = .tooShort := by
  rw [cut] at h
  split at h
  · cases h
  · exact (Except.error.inj h).symm

/-- What is wrong with a length that is spelled out shows in its own bytes, if
these are not too few. -/
theorem cutLong_eq_error (h : cutLong kind count bytes = .error flaw) :
    flaw = .tooShort ∨
      flaw = .zeroPrefixedLength ∧ bytes.head? = some 0 ∨
      flaw = .needlessLength ∧ bytes.head? ≠ some 0 ∧
        ∃ lengthBytes rest, bytes = lengthBytes ++ rest ∧ lengthBytes.length = count ∧
          Bytes.toNat lengthBytes ≤ maxShortLength := by
  simp only [cutLong] at h
  split at h
  · next hZero => exact .inr (.inl ⟨(Except.error.inj h).symm, hZero⟩)
  · next hNonzero =>
      split at h
      · exact .inl (Except.error.inj h).symm
      · next lengthBytes rest hSplit =>
          obtain ⟨hBytes, hCount⟩ := Bytes.split?_eq_some hSplit
          split at h
          · next hShort =>
              exact .inr (.inr
                ⟨(Except.error.inj h).symm, hNonzero, lengthBytes, rest, hBytes, hCount, hShort⟩)
          · exact .inl (eq_tooShort_of_cut h)

theorem cutLong_append_of_error (hCount : 0 < count) (h : cutLong kind count bytes = .error flaw)
    (hFlaw : flaw ≠ .tooShort) (suffix : Bytes) :
    cutLong kind count (bytes ++ suffix) = .error flaw := by
  rcases cutLong_eq_error h with
    hShort | ⟨rfl, hZero⟩ | ⟨rfl, hNonzero, lengthBytes, rest, rfl, rfl, hShort⟩
  · exact absurd hShort hFlaw
  · have hLead : (bytes ++ suffix).head? = some 0 := by rw [List.head?_append, hZero, Option.some_or]
    rw [cutLong, if_pos hLead]
  · obtain ⟨lead, digits, rfl⟩ := List.exists_cons_of_length_pos hCount
    have hLead : ((lead :: digits) ++ (rest ++ suffix)).head? ≠ some 0 := hNonzero
    rw [List.append_assoc, cutLong, if_neg hLead, Bytes.split?_append]
    exact if_pos hShort

/-- The bytes after an item are left over. -/
theorem read_append_of_ok (h : read bytes = .ok frame) (suffix : Bytes) :
    read (bytes ++ suffix) = .ok { frame with rest := frame.rest ++ suffix } := by
  obtain ⟨header, hFramed, hHeader, rfl⟩ := framed_of_read h
  rw [List.append_assoc, read_of_framed hFramed, hHeader]

/-- More bytes mend no flaw but their own lack. -/
theorem read_append_of_error (h : read bytes = .error flaw) (hFlaw : flaw ≠ .tooShort)
    (suffix : Bytes) : read (bytes ++ suffix) = .error flaw := by
  cases bytes with
  | nil => exact absurd (Except.error.inj h).symm hFlaw
  | cons first bytes =>
      rw [List.cons_append, read]
      rw [read] at h
      cases hLead : Lead.ofByte first with
      | itself =>
          rw [hLead] at h
          cases h
      | short kind length =>
          rw [hLead] at h
          exact absurd (eq_tooShort_of_cut h) hFlaw
      | long kind count =>
          rw [hLead] at h
          exact cutLong_append_of_error (Lead.eq_of_ofByte_long hLead).1 h hFlaw suffix

/-- An item that is cut off anywhere is too short. If it read as anything else,
it would still do so with the bytes put back. -/
theorem read_take_of_ok (h : read bytes = .ok frame) (hCut : n < frame.length) :
    read (bytes.take n) = .error .tooShort := by
  cases hRead : read (bytes.take n) with
  | ok short =>
      have hWhole := read_append_of_ok hRead (bytes.drop n)
      rw [List.take_append_drop, h] at hWhole
      have hLength : frame.length = short.length := by
        rw [Except.ok.inj hWhole]
        rfl
      have hSum := length_add_rest_of_read hRead
      have hTake := List.length_take_le n bytes
      omega
  | error flaw =>
      by_cases hFlaw : flaw = .tooShort
      · rw [hFlaw]
      · have hWhole := read_append_of_error hRead hFlaw (bytes.drop n)
        rw [List.take_append_drop, h] at hWhole
        cases hWhole

end Frame

section Decode

variable {data : Bytes} {position n : Nat} {value : Value} {e : DecodeError}

theorem decode_of_inside (h : position < data.length) :
    decode data position =
      match Frame.read (data.drop position) with
      | .error flaw => .error (.malformed position flaw.reason)
      | .ok frame => frame.decode maxNesting position :=
  if_neg (Nat.not_le_of_lt h)

/-- A buffer that ends inside an item, however deep, is too short for the item
itself: the elements of a list are not looked at before the whole list is there. -/
theorem decode_take_of_ok (h : decode data position = .ok value) (hCut : n < value.position) :
    decode (data.take n) position =
      .error (if n ≤ position then .outOfBounds position n
        else .malformed position Flaw.tooShort.reason) := by
  obtain ⟨hStart, hEnd⟩ := position_of_decode h
  have hLength : (data.take n).length = n := by
    rw [List.length_take]
    omega
  split
  · next hOutside => rw [decode, hLength, if_pos hOutside]
  · next hInside =>
      rw [decode_of_inside (by omega)] at h
      split at h
      · cases h
      · next frame hRead =>
          have hPosition := Frame.position_of_decode h
          have hFrame : n - position < frame.length := by omega
          rw [decode_of_inside (by omega), List.drop_take, Frame.read_take_of_ok hRead hFrame]

theorem decode_append_of_error (hInside : position < data.length)
    (h : decode data position = .error e)
    (hCause : e ≠ .malformed position Flaw.tooShort.reason) (suffix : Bytes) :
    decode (data ++ suffix) position = .error e := by
  have hLonger : position < (data ++ suffix).length := by
    rw [List.length_append]
    omega
  rw [decode_of_inside hLonger, List.drop_append_of_le_length (Nat.le_of_lt hInside)]
  rw [decode_of_inside hInside] at h
  cases hRead : Frame.read (data.drop position) with
  | error flaw =>
      rw [hRead] at h
      have hFlaw : flaw ≠ .tooShort := by
        rintro rfl
        exact hCause (Except.error.inj h).symm
      rw [Frame.read_append_of_error hRead hFlaw]
      exact h
  | ok frame =>
      -- whatever is wrong inside the item was found in the item's own payload
      rw [hRead] at h
      rw [Frame.read_append_of_ok hRead]
      exact (Frame.decode_rest maxNesting position frame _).trans h

/-- A buffer that ends before a decodable item does gives too short an item at
the item's own offset, or none at all if it ends before that, wherever in the
item the end falls. Any other failure inside a buffer stays the very same
whatever bytes follow, so an item that is too short at the offset itself is the
only failure that more bytes can change. -/
theorem only_missing_bytes_curable (data : Bytes) (position : Nat) :
    (∀ value, decode data position = .ok value → ∀ n < value.position,
      decode (data.take n) position =
        .error (if n ≤ position then .outOfBounds position n
          else .malformed position Flaw.tooShort.reason)) ∧
    (position < data.length → ∀ e, decode data position = .error e →
      e ≠ .malformed position Flaw.tooShort.reason →
        ∀ suffix, decode (data ++ suffix) position = .error e) ∧
    (position < data.length → ∀ e suffix, decode data position = .error e →
      decode (data ++ suffix) position ≠ .error e →
        e = .malformed position Flaw.tooShort.reason) := by
  refine ⟨fun value h n => decode_take_of_ok h, fun hInside e h => decode_append_of_error hInside h, ?_⟩
  intro hInside e suffix h hChanged
  apply Decidable.byContradiction
  intro hCause
  exact hChanged (decode_append_of_error hInside h hCause suffix)

/-- A list cut off inside its last element, and a list whose last element has a
length with a leading zero. -/
theorem only_missing_bytes_curable_nested :
    let data : Bytes := [0xff, 0xc4, 0x05, 0x82, 0x06, 0x07]
    let value : Value := .list 6 [.scalar 3 (.bytes [0x05]), .scalar 6 (.bytes [0x06, 0x07])]
    let flawed : Bytes := [0xc3, 0x05, 0xb8, 0x00]
    let e : DecodeError := .malformed 2 Flaw.zeroPrefixedLength.reason
    decode data 1 = .ok value ∧
      decode (data.take 5) 1 = .error (.malformed 1 Flaw.tooShort.reason) ∧
      decode (data.take 1) 1 = .error (.outOfBounds 1 1) ∧
      decode flawed 0 = .error e ∧ e ≠ .malformed 0 Flaw.tooShort.reason ∧
      ∀ suffix, decode (flawed ++ suffix) 0 = .error e := by
  intro data value flawed e
  have hValue : decode data 1 = .ok value := by cbv
  have hFlawed : decode flawed 0 = .error e := by
    simp [decode, flawed, Frame.read, Lead.ofByte, Frame.cut, Bytes.split?, Frame.decode, maxNesting,
      decodeItems, Frame.cutLong, Frame.length, e]
  have hCause : e ≠ .malformed 0 Flaw.tooShort.reason := by simp [e]
  have hCut := (only_missing_bytes_curable data 1).1 value hValue
  have hInside : decode (data.take 5) 1 = .error (.malformed 1 Flaw.tooShort.reason) :=
    hCut 5 (by decide)
  have hBefore : decode (data.take 1) 1 = .error (.outOfBounds 1 1) := hCut 1 (by decide)
  exact ⟨hValue, hInside, hBefore, hFlawed, hCause,
    (only_missing_bytes_curable flawed 0).2.1 (by decide) e hFlawed hCause⟩

end Decode

end NodeStore.Rlp
