import NodeStore.Bytes

/-!
The outermost layer of an RLP item: a header that names the kind of item and
the length of its payload, and the payload itself.

A byte below `0x80` is a string of that one byte, without a header. Other
strings start with `0x80` plus their length, lists with `0xc0` plus theirs, up
to a length of 55. Longer payloads start with `0xb7` or `0xf7` plus the number
of bytes of the length, followed by these bytes.
-/

namespace NodeStore.Rlp

/-- What a payload holds: bytes as they are, or further items. -/
inductive Kind where
  | string
  | list
deriving DecidableEq

inductive Flaw where
  | zeroPrefixedLength
  | tooShort
  /-- A payload of at most 55 bytes is announced by a length of its own. -/
  | needlessLength
  | nestedTooDeep
deriving DecidableEq

/-- How many lists may enclose one another, the outermost included. -/
def maxNesting : Nat := 1024

def Flaw.reason : Flaw → String
  | .zeroPrefixedLength => "RlpDataLenWithZeroPrefix"
  | .tooShort => "RlpIsTooShort"
  | .needlessLength => "RlpInvalidIndirection"
  | .nestedTooDeep => "nesting too deep (limit " ++ toString maxNesting ++ ")"

/-- The longest payload whose length fits into the first byte. -/
def maxShortLength : Nat := 55

/-- What the first byte of an item announces. -/
inductive Lead where
  /-- The byte is an item of its own. -/
  | itself
  /-- A payload of the given length follows at once. -/
  | short (kind : Kind) (length : Nat)
  /-- A length of `count` bytes follows, then the payload. -/
  | long (kind : Kind) (count : Nat)
deriving DecidableEq

def Lead.ofByte (b : UInt8) : Lead :=
  let n := b.toNat
  if n < 0x80 then .itself
  else if n < 0xb8 then .short .string (n - 0x80)
  else if n < 0xc0 then .long .string (n - 0xb7)
  else if n < 0xf8 then .short .list (n - 0xc0)
  else .long .list (n - 0xf7)

/-- One item cut off the front of a byte string: its kind, how many bytes its
header takes, its payload, and the bytes after it. -/
structure Frame where
  kind : Kind
  headerLength : Nat
  payload : Bytes
  rest : Bytes
deriving DecidableEq

namespace Frame

def length (frame : Frame) : Nat :=
  frame.headerLength + frame.payload.length

/-- Cuts off a payload of `payloadLength` bytes after a header already read. -/
def cut (kind : Kind) (headerLength payloadLength : Nat) (bytes : Bytes) : Except Flaw Frame :=
  match Bytes.split? payloadLength bytes with
  | some (payload, rest) => .ok ⟨kind, headerLength, payload, rest⟩
  | none => .error .tooShort

/-- Reads the payload's length from `count` bytes, then cuts the payload off.
A leading zero is found before missing bytes are. -/
def cutLong (kind : Kind) (count : Nat) (bytes : Bytes) : Except Flaw Frame :=
  if bytes.head? = some 0 then .error .zeroPrefixedLength
  else match Bytes.split? count bytes with
    | none => .error .tooShort
    | some (lengthBytes, rest) =>
        let length := Bytes.toNat lengthBytes
        if length ≤ maxShortLength then .error .needlessLength
        else cut kind (1 + count) length rest

/-- The first item of a byte string. -/
def read : Bytes → Except Flaw Frame
  | [] => .error .tooShort
  | first :: bytes =>
      match Lead.ofByte first with
      | .itself => .ok ⟨.string, 0, [first], bytes⟩
      | .short kind length => cut kind 1 length bytes
      | .long kind count => cutLong kind count bytes

theorem cut_eq_ok {kind : Kind} {headerLength payloadLength : Nat} {bytes : Bytes} {frame : Frame}
    (h : cut kind headerLength payloadLength bytes = .ok frame) :
    frame.kind = kind ∧ frame.headerLength = headerLength ∧
      frame.payload.length = payloadLength ∧ bytes = frame.payload ++ frame.rest := by
  simp only [cut] at h
  split at h
  · next payload rest hSplit =>
      obtain ⟨hBytes, hLength⟩ := Bytes.split?_eq_some hSplit
      cases h
      exact ⟨rfl, rfl, hLength, hBytes⟩
  · simp at h

theorem cutLong_eq_ok {kind : Kind} {count : Nat} {bytes : Bytes} {frame : Frame}
    (h : cutLong kind count bytes = .ok frame) :
    frame.kind = kind ∧ frame.headerLength = 1 + count ∧
      ∃ lengthBytes : Bytes, lengthBytes.length = count ∧
        Bytes.toNat lengthBytes = frame.payload.length ∧ maxShortLength < frame.payload.length ∧
        bytes.head? ≠ some 0 ∧ bytes = lengthBytes ++ frame.payload ++ frame.rest := by
  simp only [cutLong] at h
  split at h
  · simp at h
  · next hLead =>
      split at h
      · simp at h
      · next lengthBytes rest hSplit =>
          obtain ⟨hBytes, hCount⟩ := Bytes.split?_eq_some hSplit
          split at h
          · simp at h
          · next hLong =>
              obtain ⟨hKind, hHeader, hLength, hRest⟩ := cut_eq_ok h
              refine ⟨hKind, hHeader, lengthBytes, hCount, hLength.symm, ?_, hLead, ?_⟩
              · rw [hLength]
                exact Nat.lt_of_not_le hLong
              · rw [hBytes, hRest, List.append_assoc]

/-- A frame and what follows it make up the bytes that were read. -/
theorem length_add_rest_of_read {bytes : Bytes} {frame : Frame} (h : read bytes = .ok frame) :
    frame.length + frame.rest.length = bytes.length := by
  unfold read at h
  split at h
  · simp at h
  · next first bytes =>
      split at h
      · cases h
        simp [length]
        omega
      · obtain ⟨-, hHeader, -, hBytes⟩ := cut_eq_ok h
        simp [length, hHeader, hBytes]
        omega
      · obtain ⟨-, hHeader, lengthBytes, hCount, -, -, -, hBytes⟩ := cutLong_eq_ok h
        simp [length, hHeader, hBytes, ← hCount]
        omega

/-- No item is empty. -/
theorem length_pos_of_read {bytes : Bytes} {frame : Frame} (h : read bytes = .ok frame) :
    0 < frame.length := by
  unfold read at h
  split at h
  · simp at h
  · split at h
    · cases h
      simp [length]
    · rw [length, (cut_eq_ok h).2.1]
      omega
    · rw [length, (cutLong_eq_ok h).2.1]
      omega

theorem rest_lt_of_read {bytes : Bytes} {frame : Frame} (h : read bytes = .ok frame) :
    frame.rest.length < bytes.length := by
  have hSum := length_add_rest_of_read h
  have hPos := length_pos_of_read h
  omega

end Frame

end NodeStore.Rlp
