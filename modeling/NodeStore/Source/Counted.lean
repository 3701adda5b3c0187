import NodeStore.Source

/-!
A source that counts the calls made on it.
-/

namespace NodeStore

/-- A state with the number of calls of each kind so far. -/
structure Counted (σ : Type) where
  inner : σ
  flushResult : Bool := false
  gets : Nat := 0
  puts : Nat := 0
  deletes : Nat := 0
  flushes : Nat := 0

/-- Counts each call, then hands it on. A flush is counted and answered on the
spot. -/
def Source.counted {σ κ υ : Type} (source : Source σ κ υ) : Source (Counted σ) κ υ where
  get key s :=
    let (outcome, inner) := source.get key s.inner
    (outcome, { s with inner, gets := s.gets + 1 })
  put key value s :=
    let (outcome, inner) := source.put key value s.inner
    (outcome, { s with inner, puts := s.puts + 1 })
  delete key s :=
    let (outcome, inner) := source.delete key s.inner
    (outcome, { s with inner, deletes := s.deletes + 1 })
  flush s := (.ok s.flushResult, { s with flushes := s.flushes + 1 })

end NodeStore
