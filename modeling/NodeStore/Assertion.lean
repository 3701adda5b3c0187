import NodeStore.Error.Inspect

/-!
Assertions about results. One that does not hold gives the text to stop with.
-/

namespace NodeStore.Assertion

/-- Holds of every value. -/
def succeeded (result : Except Error Nat) : Except String Unit :=
  match result with
  | .ok _ => .ok ()
  | .error _ => .error ("Expected Ok, got Err: " ++ Inspect.result result)

/-- Holds of the failures of a store, and of nothing else. -/
def failedInStorage (result : Except Error Nat) : Except String Unit :=
  match result with
  | .error (.storage _) => .ok ()
  | other => .error ("Expected Storage error, got: " ++ Inspect.result other)

def failedInConfig (result : Except Error Nat) : Except String Unit :=
  match result with
  | .error (.config _) => .ok ()
  | other => .error ("Expected Config error, got: " ++ Inspect.result other)

end NodeStore.Assertion
