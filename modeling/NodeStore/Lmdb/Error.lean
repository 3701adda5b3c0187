import NodeStore.Error

/-!
Failures of an LMDB environment, and how they are reported to the callers of
a source.
-/

namespace NodeStore

/-- What failed, with the text that came with it. -/
inductive LmdbError where
  | envOpen (text : String)
  | dbOpen (text : String)
  | transaction (text : String)
  | io (text : String)
deriving DecidableEq

namespace LmdbError

def message : LmdbError → String
  | .envOpen text => "Failed to open LMDB environment: " ++ text
  | .dbOpen text => "Failed to open database: " ++ text
  | .transaction text => "Transaction error: " ++ text
  | .io text => "I/O error: " ++ text

/-- An I/O failure stays one; all others are failures of the backend. -/
def toError : LmdbError → Error
  | .io text => .storage (.io text)
  | e => .storage (.backend "lmdb" e.message)

end LmdbError

end NodeStore
