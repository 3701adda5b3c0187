import NodeStore.Error
import NodeStore.Rlp.Frame
import NodeStore.Rlp.Value

/-!
Decoding one item at an offset of a buffer. An item sees only the bytes up to
the end of the list around it, and its offset counts from the start of the
buffer. Main statement: an item ends past its start and inside the buffer.
-/

namespace NodeStore.Rlp

/-- Decodes all of `bytes`, item after item, by a decoder for one framed item
that is given the item's offset. The first failure ends it. -/
def decodeItems (decode : Nat → Frame → Except DecodeError Value) (position : Nat)
    (bytes : Bytes) : Except DecodeError (List Value) :=
  if bytes.isEmpty then .ok []
  else match _ : Frame.read bytes with
    | .error flaw => .error (.malformed position flaw.reason)
    | .ok frame =>
        match decode position frame with
        | .error e => .error e
        | .ok value =>
            match decodeItems decode (position + frame.length) frame.rest with
            | .error e => .error e
            | .ok values => .ok (value :: values)
termination_by bytes.length
decreasing_by exact Frame.rest_lt_of_read ‹_›

/-- The value of a framed item that starts at `position`, where `levels` more
lists may be nested. -/
def Frame.decode : (levels position : Nat) → Frame → Except DecodeError Value
  | levels, position, frame =>
      match frame.kind, levels with
      | .string, _ => .ok (.scalar (position + frame.length) (.bytes frame.payload))
      | .list, 0 => .error (.malformed position Flaw.nestedTooDeep.reason)
      | .list, levels + 1 =>
          match decodeItems (Frame.decode levels) (position + frame.headerLength) frame.payload with
          | .error e => .error e
          | .ok items => .ok (.list (position + frame.length) items)

/-- Decodes the item that starts at `position`. Bytes after it are not looked
at. -/
def decode (data : Bytes) (position : Nat) : Except DecodeError Value :=
  if data.length ≤ position then .error (.outOfBounds position data.length)
  else match Frame.read (data.drop position) with
    | .error flaw => .error (.malformed position flaw.reason)
    | .ok frame => frame.decode maxNesting position

theorem Frame.position_of_decode {levels position : Nat} {frame : Frame} {value : Value}
    (h : frame.decode levels position = .ok value) :
    value.position = position + frame.length := by
  unfold Frame.decode at h
  split at h
  · cases h
    rfl
  · simp at h
  · split at h
    · simp at h
    · cases h
      rfl

/-- An item ends past its start and not past the end of the buffer. -/
theorem position_of_decode {data : Bytes} {position : Nat} {value : Value}
    (h : decode data position = .ok value) :
    position < value.position ∧ value.position ≤ data.length := by
  simp only [decode] at h
  split at h
  · simp at h
  · next hInside =>
      split at h
      · simp at h
      · next frame hRead =>
          have hPosition := Frame.position_of_decode h
          have hPos := Frame.length_pos_of_read hRead
          have hSum := Frame.length_add_rest_of_read hRead
          rw [List.length_drop] at hSum
          omega

end NodeStore.Rlp
