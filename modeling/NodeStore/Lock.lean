import NodeStore.Source

/-!
Locks that recover. A call that crashes while it may write leaves the lock
poisoned. Whoever takes the lock later is told so, and goes on with what is
there: every change under a lock is made in one piece, so none is half done.
-/

namespace NodeStore

/-- What a lock guards, and whether a call crashed while it could write. -/
structure Lock (α : Type) where
  content : α
  poisoned : Bool := false

namespace Lock

variable {α β : Type}

/-- Takes a lock. What a poisoned one guards is handed over as an error. -/
def acquire (lock : Lock α) : Except α α :=
  if lock.poisoned then .error lock.content else .ok lock.content

/-- Takes a lock, poisoned or not. -/
def recover (lock : Lock α) : α :=
  match lock.acquire with
  | .ok content => content
  | .error content => content

def read (look : α → β) (lock : Lock α) : β := look lock.recover

/-- Makes a call that may change what is guarded. A crash leaves the lock
poisoned, and it stays so after calls that end well. -/
def write (call : α → Outcome β × α) (lock : Lock α) : Outcome β × Lock α :=
  match call lock.recover with
  | (.error (.crash message), content) => (.error (.crash message), { content, poisoned := true })
  | (outcome, content) => (outcome, { lock with content })

theorem recover_eq (lock : Lock α) : lock.recover = lock.content := by
  rcases lock with ⟨content, poisoned⟩
  cases poisoned <;> rfl

end Lock

end NodeStore
