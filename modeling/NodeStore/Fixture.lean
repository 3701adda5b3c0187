import NodeStore.Bytes.Sha256
import NodeStore.Key
import NodeStore.Source.Table

/-!
Keys and values made from numbers, for tests that need many of them.
-/

namespace NodeStore.Fixture

/-- The digest of the number's eight bytes: keys without any visible order. -/
def key (n : Nat) : Key :=
  ⟨Sha256.digest (Bytes.ofNat 8 n)⟩

/-- The number in 32 bytes, most significant byte first: keys in the order of their
numbers. -/
def word (n : Nat) : Bytes :=
  List.replicate 24 0 ++ Bytes.ofNat 8 n

def table (count : Nat) : Table Key Bytes :=
  Table.ofList ((List.range count).map fun n => (key n, word n))

end NodeStore.Fixture
