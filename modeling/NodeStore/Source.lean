import NodeStore.Error

/-!
Key-value sources. A source is a state and four calls on it; each call gives
an outcome and the state it leaves behind, whether it succeeds or not.

What callers may rely on: `get` answers the current value or that there is
none, putting the same value twice is the same as putting it once, deleting a
missing key changes nothing, and `flush` answers whether buffered changes were
pushed down.
-/

namespace NodeStore

/-- Why a call gave no answer. -/
inductive Fault where
  | failure (cause : Error)
  /-- The call was abandoned, and with it all calls waiting for it. -/
  | crash (message : String)
deriving DecidableEq

abbrev Outcome (α : Type) := Except Fault α

/-- The calls of a source with states in `σ`, keys in `κ`, values in `υ`. -/
structure Source (σ κ υ : Type) where
  get : κ → σ → Outcome (Option υ) × σ
  put : κ → υ → σ → Outcome Unit × σ
  delete : κ → σ → Outcome Unit × σ
  flush : σ → Outcome Bool × σ

end NodeStore
