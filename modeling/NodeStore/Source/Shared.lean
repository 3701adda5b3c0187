import NodeStore.Lock
import NodeStore.Source.Table

/-!
A table behind a lock, as a source that many callers share. A key is hashed
after the lock is taken, so a write whose key cannot be hashed leaves the lock
poisoned; all calls take it nevertheless.
-/

namespace NodeStore

abbrev SharedTable (κ υ : Type) := Lock (Table κ υ)

namespace SharedTable

variable {κ υ : Type} [DecidableEq κ]

def empty : SharedTable κ υ := { content := .empty }

/-- Collects pairs; the last of equal keys wins. -/
def ofList (pairs : List (κ × υ)) : SharedTable κ υ := { content := .ofList pairs }

def get? (shared : SharedTable κ υ) (key : κ) : Option υ :=
  shared.read fun table => table.get? key

def size (shared : SharedTable κ υ) : Nat := shared.read Table.size

def isEmpty (shared : SharedTable κ υ) : Bool := shared.size == 0

/-- Stores a value. The lock is taken before the key is hashed. -/
def put (hashing : Outcome Unit) (key : κ) (value : υ) (shared : SharedTable κ υ) :
    Outcome Unit × SharedTable κ υ :=
  shared.write (Table.insertHashed hashing key value)

def delete (key : κ) (shared : SharedTable κ υ) : Outcome Unit × SharedTable κ υ :=
  shared.write fun table => (.ok (), table.erase key)

/-- Forgets every key; a poisoned lock stays poisoned. -/
def clear (shared : SharedTable κ υ) : SharedTable κ υ :=
  (shared.write fun _ => (.ok (), Table.empty)).2

/-- The four calls, with keys that can be hashed. -/
def source : Source (SharedTable κ υ) κ υ where
  get key shared := (.ok (shared.get? key), shared)
  put := put (.ok ())
  delete := delete
  flush shared := (.ok false, shared)

end SharedTable

end NodeStore
