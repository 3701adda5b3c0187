/-!
Usage figures of a cache.
-/

namespace NodeStore

structure Stats where
  /-- Lookups answered from memory, remembered absence included. -/
  hits : Nat := 0
  /-- Lookups that had to ask the source. -/
  misses : Nat := 0
  entryCount : Nat := 0
  evictions : Nat := 0
deriving DecidableEq

/-- The share of lookups answered from memory, zero before the first lookup.
Both counts are rounded to doubles, then divided. -/
def Stats.hitRate (stats : Stats) : Float :=
  let total := stats.hits + stats.misses
  if total = 0 then 0
  else (UInt64.ofNat stats.hits).toFloat / (UInt64.ofNat total).toFloat

end NodeStore
