import NodeStore.Cache.Stats
import NodeStore.Cache.Store
import NodeStore.Lock
import NodeStore.Settings

/-!
A read-through, write-through cache over a source.

Once a key has been looked up, its answer is served from memory, also the
answer that there is none. Writes go to the source first and are remembered
if the source took them. Entries leave in the order of their admission: a hit
or a write to a remembered key does not make it any newer. What happens to the
source behind the cache's back is not noticed.

Entries and counts are behind a lock, which a call holds until it ends. A call that
crashes leaves it poisoned, and calls after it recover it.
-/

namespace NodeStore

/-- What the lock of a cache guards. -/
structure CacheState (κ υ : Type) where
  store : Store κ υ := {}
  hits : Nat := 0
  misses : Nat := 0
  evictions : Nat := 0

/-- A cache's own state; the source it stands on is not part of it. -/
structure ReadCache (κ υ : Type) extends Lock (CacheState κ υ) where
  content := {}
  maxCapacity : Option Capacity := none
  flushSource : Bool := false

namespace ReadCache

variable {κ υ σ : Type}

abbrev store (cache : ReadCache κ υ) : Store κ υ := cache.content.store

abbrev hits (cache : ReadCache κ υ) : Nat := cache.content.hits

abbrev misses (cache : ReadCache κ υ) : Nat := cache.content.misses

abbrev evictions (cache : ReadCache κ υ) : Nat := cache.content.evictions

/-- The cache with its lock taken, poisoned or not. -/
def underLock (cache : ReadCache κ υ) : ReadCache κ υ :=
  { cache with content := cache.recover }

/-- What is found under a lock does not hang on its being poisoned. -/
@[simp] theorem underLock_eq (cache : ReadCache κ υ) : cache.underLock = cache := by
  rw [underLock, Lock.recover_eq]

variable [DecidableEq κ]

def unbounded : ReadCache κ υ := {}

/-- Bounds the cache. If it holds more entries already, the oldest are
dropped at once and count as evicted. -/
def withMaxCapacity (capacity : Capacity) (cache : ReadCache κ υ) : ReadCache κ υ :=
  let cache := cache.underLock
  let store := cache.store.resize capacity
  { cache with
    content.store := store
    content.evictions := cache.evictions + (cache.store.size - store.size)
    maxCapacity := some capacity }

/-- Sets whether a flush is handed on to the source. -/
def withFlushSource (flushSource : Bool) (cache : ReadCache κ υ) : ReadCache κ υ :=
  { cache with flushSource }

/-- A cache as settings ask for it, if they are valid. -/
def ofSettings (settings : CacheSettings) : Except Error (ReadCache κ υ) := do
  settings.validate
  let cache := unbounded.withFlushSource settings.flushSource
  match settings.capacity with
  | some capacity => return cache.withMaxCapacity capacity
  | none => return cache

/-- The entry remembered under a key. Neither the source nor any count is
touched. -/
def peek (cache : ReadCache κ υ) (key : κ) : Option (Entry υ) :=
  cache.underLock.store.find? key

def size (cache : ReadCache κ υ) : Nat := cache.underLock.store.size

def isEmpty (cache : ReadCache κ υ) : Bool := cache.size == 0

/-- The counts, and the number of entries at the moment. -/
def stats (cache : ReadCache κ υ) : Stats :=
  let cache := cache.underLock
  { hits := cache.hits
    misses := cache.misses
    entryCount := cache.store.size
    evictions := cache.evictions }

/-- Remembers a key that is not held yet, as the newest. An entry driven out
by it counts as evicted. -/
def add (key : κ) (entry : Entry υ) (cache : ReadCache κ υ) : ReadCache κ υ :=
  match cache.store.push key entry with
  | (store, some _) =>
      { cache with content.store := store, content.evictions := cache.evictions + 1 }
  | (store, none) => { cache with content.store := store }

/-- Remembers a key: in its place if it is held, else as the newest. -/
def remember (key : κ) (entry : Entry υ) (cache : ReadCache κ υ) : ReadCache κ υ :=
  match cache.store.find? key with
  | some _ => { cache with content.store := cache.store.replace key entry }
  | none => cache.add key entry

def countHit (cache : ReadCache κ υ) : ReadCache κ υ :=
  { cache with content.hits := cache.hits + 1 }

def countMiss (cache : ReadCache κ υ) : ReadCache κ υ :=
  { cache with content.misses := cache.misses + 1 }

/-- Lets go of the lock on the way out of a call that ended in a fault. A
crash leaves the lock poisoned. -/
def release (fault : Fault) (cache : ReadCache κ υ) : ReadCache κ υ :=
  match fault with
  | .failure _ => cache
  | .crash _ => { cache with poisoned := true }

/-- The value under a key, from memory if it is held, else by `ask`. A miss
is counted before the source is asked; only an answer is remembered. -/
def get (ask : σ → Outcome (Option υ) × σ) (key : κ) (cache : ReadCache κ υ) (s : σ) :
    Outcome (Option υ) × ReadCache κ υ × σ :=
  let cache := cache.underLock
  match cache.store.find? key with
  | some entry => (.ok entry.value?, cache.countHit, s)
  | none =>
      match ask s with
      | (.ok answer, s) => (.ok answer, cache.countMiss.add key (.ofOption answer), s)
      | (.error fault, s) => (.error fault, cache.countMiss.release fault, s)

/-- Hands a write on by `write`, and remembers `entry` if it went through. -/
def write (write : σ → Outcome Unit × σ) (key : κ) (entry : Entry υ) (cache : ReadCache κ υ)
    (s : σ) : Outcome Unit × ReadCache κ υ × σ :=
  let cache := cache.underLock
  match write s with
  | (.ok (), s) => (.ok (), cache.remember key entry, s)
  | (.error fault, s) => (.error fault, cache.release fault, s)

/-- Hands a flush on if the cache is set to; nothing is buffered here, and no
lock is held. -/
def flush (flush : σ → Outcome Bool × σ) (cache : ReadCache κ υ) (s : σ) :
    Outcome Bool × ReadCache κ υ × σ :=
  if cache.flushSource then
    let (outcome, s) := flush s
    (outcome, cache, s)
  else (.ok false, cache, s)

/-- Forgets a key, and tells whether it was held. -/
def invalidate (key : κ) (cache : ReadCache κ υ) : Bool × ReadCache κ υ :=
  let cache := cache.underLock
  ((cache.store.find? key).isSome, { cache with content.store := cache.store.erase key })

/-- Forgets every key; the counts stay. -/
def clear (cache : ReadCache κ υ) : ReadCache κ υ :=
  let cache := cache.underLock
  { cache with content.store := cache.store.clear }

section UnderLock

variable (cache : ReadCache κ υ) (s : σ) (key : κ)

/-! What the calls come to, as no call is kept from the cache by a poisoned lock. -/

omit [DecidableEq κ] in
theorem withMaxCapacity_eq (capacity : Capacity) :
    cache.withMaxCapacity capacity =
      { cache with
        content.store := cache.store.resize capacity
        content.evictions :=
          cache.evictions + (cache.store.size - (cache.store.resize capacity).size)
        maxCapacity := some capacity } := by
  rw [withMaxCapacity, underLock_eq]

theorem peek_eq : cache.peek key = cache.store.find? key := by rw [peek, underLock_eq]

/-- What is remembered under a key hangs on the entries alone. -/
theorem peek_congr {cache other : ReadCache κ υ} {key : κ} (h : cache.store = other.store) :
    cache.peek key = other.peek key := by
  rw [peek_eq, peek_eq, h]

theorem peek_countMiss : cache.countMiss.peek key = cache.peek key := peek_congr rfl

omit [DecidableEq κ] in
theorem size_eq : cache.size = cache.store.size := by rw [size, underLock_eq]

omit [DecidableEq κ] in
theorem stats_eq :
    cache.stats = ⟨cache.hits, cache.misses, cache.store.size, cache.evictions⟩ := by
  rw [stats, underLock_eq]

theorem get_eq (ask : σ → Outcome (Option υ) × σ) :
    cache.get ask key s =
      match cache.store.find? key with
      | some entry => (.ok entry.value?, cache.countHit, s)
      | none =>
          match ask s with
          | (.ok answer, s) => (.ok answer, cache.countMiss.add key (.ofOption answer), s)
          | (.error fault, s) => (.error fault, cache.countMiss.release fault, s) := by
  rw [get, underLock_eq]

theorem write_eq (write : σ → Outcome Unit × σ) (entry : Entry υ) :
    cache.write write key entry s =
      match write s with
      | (.ok (), s) => (.ok (), cache.remember key entry, s)
      | (.error fault, s) => (.error fault, cache.release fault, s) := by
  rw [ReadCache.write, underLock_eq]

theorem invalidate_eq :
    cache.invalidate key =
      ((cache.store.find? key).isSome, { cache with content.store := cache.store.erase key }) := by
  rw [invalidate, underLock_eq]

omit [DecidableEq κ] in
theorem clear_eq : cache.clear = { cache with content.store := cache.store.clear } := by
  rw [clear, underLock_eq]

end UnderLock

end ReadCache

/-- A cache over a source is a source. -/
def Source.cached {κ υ σ : Type} [DecidableEq κ] (source : Source σ κ υ) :
    Source (ReadCache κ υ × σ) κ υ where
  get key s := s.1.get (source.get key) key s.2
  put key value s := s.1.write (source.put key value) key (.present value) s.2
  delete key s := s.1.write (source.delete key) key .absent s.2
  flush s := s.1.flush source.flush s.2

end NodeStore
