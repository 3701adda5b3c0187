import NodeStore.Source

/-!
Sources that break on demand. While switched on, every call ends in a fault
before it does anything.
-/

namespace NodeStore

/-- A state with a switch for faults. -/
structure Switched (σ : Type) where
  inner : σ
  faulty : Bool := false

/-- A call that ends in `fault` while the switch is on. -/
def Switched.guard {σ α : Type} (fault : Fault) (call : σ → Outcome α × σ) (s : Switched σ) :
    Outcome α × Switched σ :=
  if s.faulty then (.error fault, s)
  else
    let (outcome, inner) := call s.inner
    (outcome, { s with inner })

/-- Guards every call; `fault` is given the name of the call. -/
def Source.switched {σ κ υ : Type} (fault : String → Fault) (source : Source σ κ υ) :
    Source (Switched σ) κ υ where
  get key := Switched.guard (fault "get") (source.get key)
  put key value := Switched.guard (fault "put") (source.put key value)
  delete key := Switched.guard (fault "delete") (source.delete key)
  flush := Switched.guard (fault "flush") source.flush

def Fault.injectedFailure (call : String) : Fault :=
  .failure (.storage (.io ("injected " ++ call ++ " failure")))

def Fault.injectedCrash (call : String) : Fault :=
  .crash ("injected " ++ call ++ " panic")

/-- Calls report a failure while the switch is on. -/
def Source.failing {σ κ υ : Type} (source : Source σ κ υ) : Source (Switched σ) κ υ :=
  source.switched Fault.injectedFailure

/-- Calls crash while the switch is on. -/
def Source.crashing {σ κ υ : Type} (source : Source σ κ υ) : Source (Switched σ) κ υ :=
  source.switched Fault.injectedCrash

end NodeStore
