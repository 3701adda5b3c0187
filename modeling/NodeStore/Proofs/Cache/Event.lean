import NodeStore.Cache.Stack
import NodeStore.Proofs.Run

/-!
What can be done to a cache, to a stack of caches, and to what they stand on,
each as an event with its answer. A run is a list of events; the steps here are
the calls of the library.
-/

namespace NodeStore

variable {κ υ σ : Type}

/-- A call about one key. -/
inductive Access (κ υ : Type) where
  | get (key : κ)
  | put (key : κ) (value : υ)
  | delete (key : κ)

def Access.key : Access κ υ → κ
  | .get key => key
  | .put key _ => key
  | .delete key => key

/-- Work on one cache alone: looking at it, forgetting, bounding. -/
inductive Upkeep (κ : Type) where
  | peek (key : κ)
  | size
  | stats
  | invalidate (key : κ)
  | clear
  | bound (capacity : Capacity)

/-- What any of the calls here answers. -/
inductive Reply (υ : Type) where
  | got (outcome : Outcome (Option υ))
  | wrote (outcome : Outcome Unit)
  | flushed (outcome : Outcome Bool)
  | entry (entry : Option (Entry υ))
  | size (size : Nat)
  | stats (stats : Stats)
  | held (held : Bool)
  | done

def Reply.fault? : Reply υ → Option Fault
  | .got (.error fault) => some fault
  | .wrote (.error fault) => some fault
  | .flushed (.error fault) => some fault
  | _ => none

def Reply.failed (reply : Reply υ) : Bool := reply.fault?.isSome

def Source.access (source : Source σ κ υ) : Access κ υ → σ → Reply υ × σ
  | .get key, s => (.got (source.get key s).1, (source.get key s).2)
  | .put key value, s => (.wrote (source.put key value s).1, (source.put key value s).2)
  | .delete key, s => (.wrote (source.delete key s).1, (source.delete key s).2)

variable [DecidableEq κ]

def ReadCache.perform : Upkeep κ → ReadCache κ υ → Reply υ × ReadCache κ υ
  | .peek key, cache => (.entry (cache.peek key), cache)
  | .size, cache => (.size cache.size, cache)
  | .stats, cache => (.stats cache.stats, cache)
  | .invalidate key, cache => (.held (cache.invalidate key).1, (cache.invalidate key).2)
  | .clear, cache => (.done, cache.clear)
  | .bound capacity, cache => (.done, cache.withMaxCapacity capacity)

/-- The same, once the lock is taken. -/
theorem ReadCache.perform_eq (work : Upkeep κ) (cache : ReadCache κ υ) :
    cache.perform work =
      match work with
      | .peek key => (.entry (cache.store.find? key), cache)
      | .size => (.size cache.store.size, cache)
      | .stats => (.stats ⟨cache.hits, cache.misses, cache.store.size, cache.evictions⟩, cache)
      | .invalidate key =>
          (.held (cache.store.find? key).isSome,
            { cache with content.store := cache.store.erase key })
      | .clear => (.done, { cache with content.store := cache.store.clear })
      | .bound capacity =>
          (.done,
            { cache with
              content.store := cache.store.resize capacity
              content.evictions :=
                cache.evictions + (cache.store.size - (cache.store.resize capacity).size)
              maxCapacity := some capacity }) := by
  cases work with
  | peek key => rw [perform, peek_eq]
  | size => rw [perform, size_eq]
  | stats => rw [perform, stats_eq]
  | invalidate key => rw [perform, invalidate_eq]
  | clear => rw [perform, clear_eq]
  | bound capacity => rw [perform, withMaxCapacity_eq]

namespace ReadCache

/-- An empty cache with its bound, if any, that hands a flush on or does
not. -/
def fresh (capacity : Option Capacity) (flushSource : Bool) : ReadCache κ υ :=
  match capacity with
  | some capacity => (unbounded.withFlushSource flushSource).withMaxCapacity capacity
  | none => unbounded.withFlushSource flushSource

/-- What happens to one cache over a source, and to the source behind its
back. -/
inductive Event (σ κ υ : Type) where
  | access (access : Access κ υ)
  | flush
  | upkeep (work : Upkeep κ)
  /-- The source is changed, or made to fail, past the cache. -/
  | outside (change : σ → σ)

def step (source : Source σ κ υ) : Event σ κ υ → ReadCache κ υ × σ → Reply υ × ReadCache κ υ × σ
  | .access access, state => source.cached.access access state
  | .flush, state => (.flushed (source.cached.flush state).1, (source.cached.flush state).2)
  | .upkeep work, (cache, s) => ((cache.perform work).1, (cache.perform work).2, s)
  | .outside change, (cache, s) => (.done, cache, change s)

end ReadCache

namespace Stack

/-- What is done to a stack of caches. Calls about a key go through the top;
the layers are numbered from the top, and below the last one is the source. -/
inductive Event (κ υ : Type) where
  | access (access : Access κ υ)
  | flush (layer : Nat)
  | upkeep (layer : Nat) (work : Upkeep κ)

def Event.access? : Event κ υ → Option (Access κ υ)
  | .access call => some call
  | .flush _ => none
  | .upkeep _ _ => none

/-- Flushes layer `layer` and what it hands the flush on to. -/
def flushFrom (source : Source σ κ υ) (layer : Nat) (stack : Stack κ υ) (s : σ) :
    Reply υ × Stack κ υ × σ :=
  let (outcome, below, s) := Stack.flush source (stack.drop layer) s
  (.flushed outcome, stack.take layer ++ below, s)

/-- Carries out work on one layer; there is nothing to do past the last. -/
def perform (layer : Nat) (work : Upkeep κ) (stack : Stack κ υ) : Reply υ × Stack κ υ :=
  match stack[layer]? with
  | none => (.done, stack)
  | some cache => ((cache.perform work).1, stack.set layer (cache.perform work).2)

def step (source : Source σ κ υ) : Event κ υ → Stack κ υ × σ → Reply υ × Stack κ υ × σ
  | .access access, state => source.stacked.access access state
  | .flush layer, (stack, s) => flushFrom source layer stack s
  | .upkeep layer work, (stack, s) =>
      ((perform layer work stack).1, (perform layer work stack).2, s)

/-- A stack of empty caches, given for each its bound, if any, and whether it
hands a flush on. -/
def fresh (layers : List (Option Capacity × Bool)) : Stack κ υ :=
  layers.map fun layer => ReadCache.fresh layer.1 layer.2

end Stack

end NodeStore
