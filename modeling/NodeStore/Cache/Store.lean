import NodeStore.Cache.Capacity
import NodeStore.Cache.Entry
import NodeStore.Records

/-!
The entries of a cache, in order of admission, oldest first. A store with a
capacity makes room for a new key by dropping its oldest entry.
-/

namespace NodeStore

/-- Entries under their keys, oldest first. -/
structure Store (κ υ : Type) where
  items : List (κ × Entry υ) := []
  capacity : Option Capacity := none

namespace Store

variable {κ υ : Type} [DecidableEq κ]

def size (store : Store κ υ) : Nat := store.items.length

def keys (store : Store κ υ) : List κ := store.items.map Prod.fst

/-- The entry under a key. Looking does not change the order. -/
def find? (store : Store κ υ) (key : κ) : Option (Entry υ) :=
  store.items.lookup key

/-- Puts another entry under a key, in the place of the one that is there. -/
def replace (key : κ) (entry : Entry υ) (store : Store κ υ) : Store κ υ :=
  { store with items := Records.replace key entry store.items }

def erase (key : κ) (store : Store κ υ) : Store κ υ :=
  { store with items := Records.erase key store.items }

/-- Whether one more entry would pass the capacity. -/
def isFull (store : Store κ υ) : Bool :=
  match store.capacity with
  | some capacity => store.size = capacity.count
  | none => false

/-- Puts an entry at the newest end and gives back what it drove out: the
former entry of the same key, else the oldest entry of a full store. -/
def push (key : κ) (entry : Entry υ) (store : Store κ υ) :
    Store κ υ × Option (κ × Entry υ) :=
  match store.find? key with
  | some former =>
      let others := (store.erase key).items
      ({ store with items := others ++ [(key, entry)] }, some (key, former))
  | none =>
      if store.isFull then
        ({ store with items := store.items.drop 1 ++ [(key, entry)] }, store.items.head?)
      else ({ store with items := store.items ++ [(key, entry)] }, none)

/-- Sets the capacity and drops the oldest entries beyond it. -/
def resize (capacity : Capacity) (store : Store κ υ) : Store κ υ :=
  { items := store.items.drop (store.size - capacity.count), capacity := some capacity }

def clear (store : Store κ υ) : Store κ υ :=
  { store with items := [] }

theorem keys_replace (key : κ) (entry : Entry υ) (store : Store κ υ) :
    (store.replace key entry).keys = store.keys :=
  Records.keys_replace key entry store.items

theorem keys_erase (key : κ) (store : Store κ υ) :
    (store.erase key).keys = store.keys.filter fun other => other ≠ key :=
  Records.keys_erase key store.items

/-- An entry that is replaced does not change what is found under other keys. -/
theorem find?_replace_ne {key other : κ} (h : other ≠ key) (entry : Entry υ) (store : Store κ υ) :
    (store.replace key entry).find? other = store.find? other :=
  Records.lookup_replace_ne h entry store.items

/-- A new key comes last; it drives out the first key of a full store. -/
theorem keys_push_of_new {key : κ} (entry : Entry υ) {store : Store κ υ}
    (h : store.find? key = none) :
    (store.push key entry).1.keys =
      (if store.isFull then store.keys.drop 1 else store.keys) ++ [key] := by
  rw [push, h]
  by_cases hFull : store.isFull = true <;> simp [hFull, keys]

omit [DecidableEq κ] in
/-- What is left after a capacity is set are the newest keys, in their order. -/
theorem keys_resize (capacity : Capacity) (store : Store κ υ) :
    (store.resize capacity).keys = store.keys.drop (store.size - capacity.count) := by
  rw [keys, resize, List.map_drop]
  rfl

end Store

end NodeStore
