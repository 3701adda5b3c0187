import NodeStore.Bytes.Hex

/-!
Keys of caches and sources: byte strings compared by content, in
lexicographic order.
-/

namespace NodeStore

structure Key where
  bytes : Bytes

namespace Key

/-- Keys are equal if their bytes are; the comparison stops at the first byte
that differs. -/
instance : DecidableEq Key := fun a b =>
  decidable_of_iff ((a.bytes == b.bytes) = true) (by cases a; cases b; simp)

def length (key : Key) : Nat := key.bytes.length

def isEmpty (key : Key) : Bool := key.bytes.isEmpty

/-- A key is hashed like its bytes, so they stand for it in a lookup. -/
def hash (hasher : Bytes → UInt64) (key : Key) : UInt64 := hasher key.bytes

/-- Byte by byte; a proper prefix comes first. -/
instance : Ord Key where
  compare a b := compare a.bytes b.bytes

/-- A key as text: its bytes in hex. -/
def render (key : Key) : String := Hex.encode key.bytes

def inspect (key : Key) : String := "BytesKey(" ++ key.render ++ ")"

/-- Keys in ascending order. -/
def sort (keys : List Key) : List Key :=
  keys.mergeSort fun a b => (compare a b).isLE

end Key

end NodeStore
