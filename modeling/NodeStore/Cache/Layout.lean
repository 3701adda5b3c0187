import NodeStore.Cache.Stack

/-!
Several caches that share what is below them. Each layer stands over the
source or over an earlier layer; what a call on a layer goes through is the
stack from that layer down to the source.
-/

namespace NodeStore

/-- A cache and the earlier layer below it; without one it stands over the
source. -/
structure Layer (κ υ : Type) where
  cache : ReadCache κ υ
  below : Option Nat := none

/-- Layers in the order in which they were built. -/
abbrev Layout (κ υ : Type) := List (Layer κ υ)

namespace Layout

variable {κ υ σ α : Type} [DecidableEq κ]

/-- The layers that a call on layer `index` goes through, top first. -/
def path (layout : Layout κ υ) (index : Nat) : List Nat :=
  match layout[index]? with
  | none => []
  | some layer =>
      match layer.below with
      | none => [index]
      | some next => if next < index then index :: path layout next else [index]
termination_by index

def stack (layout : Layout κ υ) (path : List Nat) : Stack κ υ :=
  path.filterMap fun index => layout[index]?.map Layer.cache

def setCache (index : Nat) (cache : ReadCache κ υ) (layout : Layout κ υ) : Layout κ υ :=
  layout.modify index fun layer => { layer with cache }

def setStack (path : List Nat) (stack : Stack κ υ) (layout : Layout κ υ) : Layout κ υ :=
  (path.zip stack).foldl (fun layout (index, cache) => layout.setCache index cache) layout

def through (path : List Nat) (call : Stack κ υ → σ → α × Stack κ υ × σ) (layout : Layout κ υ)
    (s : σ) : α × Layout κ υ × σ :=
  let (result, stack, s) := call (layout.stack path) s
  (result, layout.setStack path stack, s)

/-- A source's view of one layer: calls go through it and what is below. -/
def source (source : Source σ κ υ) (index : Nat) : Source (Layout κ υ × σ) κ υ where
  get key s := through (s.1.path index) (Stack.get source key) s.1 s.2
  put key value s :=
    through (s.1.path index) (Stack.write (source.put key value) key (.present value)) s.1 s.2
  delete key s :=
    through (s.1.path index) (Stack.write (source.delete key) key .absent) s.1 s.2
  flush s := through (s.1.path index) (Stack.flush source) s.1 s.2

/-- Looks a key up in what layer `index` stands over, past the layer. -/
def getBelow (source : Source σ κ υ) (index : Nat) (key : κ) (layout : Layout κ υ) (s : σ) :
    Outcome (Option υ) × Layout κ υ × σ :=
  through (layout.path index).tail (Stack.get source key) layout s

end Layout

end NodeStore
