import NodeStore.Error
import NodeStore.Rlp.Frame
import NodeStore.Rlp.Value

/-!
Decoding as it runs on a machine: offsets, lengths and depths are words of 64
bits, and an item is given the slice of the buffer that it may look at. A sum
that does not fit into a word, or a range outside of a slice, is a trap.
-/

namespace NodeStore.Rlp.Scan

/-- What stops a machine in the middle of a computation. -/
inductive Trap where
  | overflow (a b : UInt64)
  | range (start stop length : Nat)
deriving DecidableEq

inductive Halt where
  | trap (cause : Trap)
  | failure (cause : DecodeError)
deriving DecidableEq

/-- A computation that gives a result, halts, or does neither when it is broken off. -/
abbrev Run := ExceptT Halt Option

def brokenOff {α : Type} : Run α := ExceptT.mk none

def fits (a b : UInt64) : Bool := a.toNat + b.toNat < UInt64.size

def add (a b : UInt64) : Run UInt64 :=
  if fits a b then pure (a + b) else throw (.trap (.overflow a b))

/-- The sum of two words, if it is a word. -/
def checkedAdd (a b : UInt64) : Option UInt64 :=
  if fits a b then some (a + b) else none

def slice (bytes : Bytes) (start stop : Nat) : Run Bytes :=
  if start ≤ stop ∧ stop ≤ bytes.length then pure ((bytes.take stop).drop start)
  else throw (.trap (.range start stop bytes.length))

/-- What stands before a payload: the kind of the item, how many bytes its header
takes, and how many its payload. -/
structure Header where
  kind : Kind
  headerLength : UInt64
  payloadLength : UInt64
deriving DecidableEq

namespace Header

/-- What `count` bytes announce that spell the length of a payload. -/
def announcedLong (kind : Kind) (count : Nat) (bytes : Bytes) : Except Flaw Header :=
  if bytes.head? = some 0 then .error .zeroPrefixedLength
  else match Bytes.split? count bytes with
    | none => .error .tooShort
    | some (lengthBytes, _) =>
        let length := UInt64.ofNat (Bytes.toNat lengthBytes)
        if length.toNat ≤ maxShortLength then .error .needlessLength
        else .ok ⟨kind, .ofNat (1 + count), length⟩

/-- What the first bytes announce, whether or not the payload is there. -/
def announced : Bytes → Except Flaw Header
  | [] => .error .tooShort
  | first :: bytes =>
      match Lead.ofByte first with
      | .itself => .ok ⟨.string, 0, 1⟩
      | .short kind length => .ok ⟨kind, 1, .ofNat length⟩
      | .long kind count => announcedLong kind count bytes

/-- An item that is longer than a word can tell, or than what is there, is
refused. -/
def within (available : Nat) (header : Header) : Except Flaw Header :=
  match checkedAdd header.headerLength header.payloadLength with
  | none => .error .tooShort
  | some total => if total.toNat ≤ available then .ok header else .error .tooShort

/-- The header of the first item of a slice. -/
def read (bytes : Bytes) : Except Flaw Header :=
  (announced bytes).bind (within bytes.length)

end Header

/-- Where the payload ends that starts at `payloadStart`, if that is in the slice. -/
def payloadStop? (bytes : Bytes) (payloadStart : UInt64) (header : Header) : Option UInt64 :=
  match checkedAdd payloadStart header.payloadLength with
  | none => none
  | some stop => if stop.toNat ≤ bytes.length then some stop else none

def overrunReason (length bufferLength : Nat) : String :=
  "item of " ++ toString length ++ " bytes overruns buffer of length " ++ toString bufferLength

/-- What a call is to decode: the item that starts at `position` of a slice, inside
`depth` lists. -/
structure Request where
  bytes : Bytes
  position : UInt64
  depth : UInt64
deriving DecidableEq

/-- Decodes item after item by `ask`, while the cursor is before `stop`. Each item sees
the slice up to there, and moves the cursor to its end. The machine itself counts no
`rounds`: a loop that has used them up is broken off. -/
def decodeUpTo (ask : Request → Run Value) (bytes : Bytes) (stop depth : UInt64) :
    (rounds : Nat) → (cursor : UInt64) → Run (List Value)
  | 0, _ => brokenOff
  | rounds + 1, cursor =>
    if cursor < stop then do
      let visible ← slice bytes 0 stop.toNat
      let deeper ← add depth 1
      let item ← ask ⟨visible, cursor, deeper⟩
      let items ← decodeUpTo ask bytes stop depth rounds (.ofNat item.position)
      return item :: items
    else return []

/-- One call, which has the elements of a list decoded by `ask`. -/
def decodeBy (ask : Request → Run Value) (rounds : Nat) (request : Request) : Run Value :=
  let ⟨bytes, position, depth⟩ := request
  if bytes.length ≤ position.toNat then
    throw (.failure (.outOfBounds position.toNat bytes.length))
  else do
    let rest ← slice bytes position.toNat bytes.length
    match Header.read rest with
    | .error flaw => throw (.failure (.malformed position.toNat flaw.reason))
    | .ok header =>
        let payloadStart ← add position header.headerLength
        match payloadStop? bytes payloadStart header with
        | none =>
            let length ← add header.headerLength header.payloadLength
            throw (.failure (.malformed position.toNat (overrunReason length.toNat bytes.length)))
        | some stop =>
            match header.kind with
            | .string =>
                let payload ← slice bytes payloadStart.toNat stop.toNat
                return .scalar stop.toNat (.bytes payload)
            | .list =>
                if maxNesting ≤ depth.toNat then
                  throw (.failure (.malformed position.toNat Flaw.nestedTooDeep.reason))
                else
                  let items ← decodeUpTo ask bytes stop depth rounds payloadStart
                  return .list stop.toNat items

/-- Decoding by a call that asks itself, where no more than `nesting` calls stand inside
one another. One more, and the run is broken off: nothing in the code counts them. -/
def decodeAt (rounds : Nat) : (nesting : Nat) → Request → Run Value
  | 0, _ => brokenOff
  | nesting + 1, request => decodeBy (decodeAt rounds nesting) rounds request

end NodeStore.Rlp.Scan
