import NodeStore.Cache.ReadCache

/-!
Caches on top of one another over a source, the top one first. Such a stack
is a source: each cache asks the one below it.
-/

namespace NodeStore

/-- The caches of a stack, top first. -/
abbrev Stack (κ υ : Type) := List (ReadCache κ υ)

namespace Stack

variable {κ υ σ : Type} [DecidableEq κ]

def get (source : Source σ κ υ) (key : κ) :
    Stack κ υ → σ → Outcome (Option υ) × Stack κ υ × σ
  | [], s =>
      let (outcome, s) := source.get key s
      (outcome, [], s)
  | top :: below, s =>
      let (outcome, top, below, s) :=
        top.get (fun t => get source key below t.2) key (below, s)
      (outcome, top :: below, s)

/-- Writes down through the stack to the source, by `write` at the bottom. -/
def write (bottom : σ → Outcome Unit × σ) (key : κ) (entry : Entry υ) :
    Stack κ υ → σ → Outcome Unit × Stack κ υ × σ
  | [], s =>
      let (outcome, s) := bottom s
      (outcome, [], s)
  | top :: below, s =>
      let (outcome, top, below, s) :=
        top.write (fun t => write bottom key entry below t.2) key entry (below, s)
      (outcome, top :: below, s)

/-- Flushes as far down as the caches hand it on. -/
def flush (source : Source σ κ υ) : Stack κ υ → σ → Outcome Bool × Stack κ υ × σ
  | [], s =>
      let (outcome, s) := source.flush s
      (outcome, [], s)
  | top :: below, s =>
      let (outcome, top, below, s) := top.flush (fun t => flush source below t.2) (below, s)
      (outcome, top :: below, s)

end Stack

/-- A stack over a source is a source. -/
def Source.stacked {κ υ σ : Type} [DecidableEq κ] (source : Source σ κ υ) :
    Source (Stack κ υ × σ) κ υ where
  get key s := Stack.get source key s.1 s.2
  put key value s := Stack.write (source.put key value) key (.present value) s.1 s.2
  delete key s := Stack.write (source.delete key) key .absent s.1 s.2
  flush s := Stack.flush source s.1 s.2

end NodeStore
