/-!
Bounds of caches.
-/

namespace NodeStore

/-- A bound on the number of entries. Zero is no bound. -/
structure Capacity where
  count : Nat
  count_pos : 0 < count
deriving DecidableEq

def Capacity.ofNat? (count : Nat) : Option Capacity :=
  if h : 0 < count then some ⟨count, h⟩ else none

end NodeStore
