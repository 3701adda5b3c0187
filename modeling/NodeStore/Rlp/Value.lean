import NodeStore.Bytes.Hex

/-!
Decoded values. Every node of a value carries the offset just past its last
byte in the buffer it came from, so that a reader can resume there.
-/

namespace NodeStore.Rlp

/-- A payload without inner structure. -/
inductive Scalar where
  /-- Known to be textual, shown as it is. -/
  | text (content : String)
  /-- Opaque bytes, shown in hexadecimal. -/
  | bytes (content : Bytes)
deriving DecidableEq

namespace Scalar

/-- The bytes of a scalar; text counts as its UTF-8 bytes. -/
def toBytes : Scalar → Bytes
  | .text content => content.toUTF8.toList
  | .bytes content => content

def render : Scalar → String
  | .text content => content
  | .bytes content => Hex.encode content

end Scalar

/-- A scalar or a list of values, with the offset where it ends. -/
inductive Value where
  | scalar (position : Nat) (content : Scalar)
  | list (position : Nat) (items : List Value)

namespace Value

def position : Value → Nat
  | .scalar position _ => position
  | .list position _ => position

/-- The same value, ending elsewhere. Values inside it keep their offsets. -/
def moveTo (position : Nat) : Value → Value
  | .scalar _ content => .scalar position content
  | .list _ items => .list position items

def bytes? : Value → Option Bytes
  | .scalar _ content => some content.toBytes
  | .list _ _ => none

def items? : Value → Option (List Value)
  | .scalar _ _ => none
  | .list _ items => some items

def isList (value : Value) : Bool :=
  value.items?.isSome

mutual

/-- Appends a value to a text: a scalar as itself, a list as its elements one after
the other. -/
def write (out : String) : Value → String
  | .scalar _ content => out ++ content.render
  | .list _ items => writeAll out items

def writeAll (out : String) : List Value → String
  | [] => out
  | value :: values => writeAll (value.write out) values

end

def render (value : Value) : String := value.write ""

/-- A value is displayed as its text. -/
instance : ToString Value := ⟨render⟩

mutual

/-- Two values are equal if shape, payloads and all offsets agree. -/
def decEq : (a b : Value) → Decidable (a = b)
  | .scalar p s, .scalar q t =>
      if h : p = q ∧ s = t then isTrue (by rw [h.1, h.2])
      else isFalse (by simpa using h)
  | .list p as, .list q bs =>
      if hPosition : p = q then
        match decEqAll as bs with
        | isTrue hItems => isTrue (by rw [hPosition, hItems])
        | isFalse hItems => isFalse (by simp [hItems])
      else isFalse (by simp [hPosition])
  | .scalar _ _, .list _ _ => isFalse (by simp)
  | .list _ _, .scalar _ _ => isFalse (by simp)

def decEqAll : (as bs : List Value) → Decidable (as = bs)
  | [], [] => isTrue rfl
  | a :: as, b :: bs =>
      match decEq a b, decEqAll as bs with
      | isTrue hHead, isTrue hTail => isTrue (by rw [hHead, hTail])
      | isFalse hHead, _ => isFalse (by simp [hHead])
      | _, isFalse hTail => isFalse (by simp [hTail])
  | [], _ :: _ => isFalse (by simp)
  | _ :: _, [] => isFalse (by simp)

end

instance : DecidableEq Value := decEq

end Value

end NodeStore.Rlp
