import NodeStore.Rlp.Decode

/-!
A buffer read as a sequence of items, each starting where the one before it
ends.
-/

namespace NodeStore.Rlp

/-- The items of a sequence and the failure that ended it. A sequence that
fills the buffer ends out of bounds at the buffer's end. -/
structure Stream where
  items : List Value
  stop : DecodeError

/-- Decodes at `position`, then at the end of each item, until one fails. -/
def decodeStream (data : Bytes) (position : Nat) : Stream :=
  match _ : decode data position with
  | .error e => ⟨[], e⟩
  | .ok value =>
      let later := decodeStream data value.position
      ⟨value :: later.items, later.stop⟩
termination_by data.length - position
decreasing_by
  have := position_of_decode ‹_›
  omega

end NodeStore.Rlp
