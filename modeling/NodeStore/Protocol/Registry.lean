import NodeStore.Error
import NodeStore.Protocol.Version

/-!
A registry of protocol handlers. It holds one factory for each version and
builds a fresh handler on request. A factory is an action: calling it may
change the state `ω` around the registry.
-/

namespace NodeStore

structure Handler where
  version : EthVersion
deriving DecidableEq

/-- Gives a handler, and what its making leaves of the state around. -/
abbrev Factory (ω : Type) := ω → Handler × ω

/-- Builds handlers of a version and counts them in one slot of a tally. -/
def Factory.tallied (version : EthVersion) (slot : Nat) : Factory (List Nat) :=
  fun tally => (⟨version⟩, tally.modify slot (· + 1))

/-- Factories under their version numbers, lowest first. -/
structure Registry (ω : Type) where
  factories : List (UInt8 × Factory ω) := []

namespace Registry

variable {ω : Type}

/-- Keeps the numbers ascending; a factory under the same number is
replaced. -/
def insert (code : UInt8) (factory : Factory ω) :
    List (UInt8 × Factory ω) → List (UInt8 × Factory ω)
  | [] => [(code, factory)]
  | first :: rest =>
      if code < first.1 then (code, factory) :: first :: rest
      else if code = first.1 then (code, factory) :: rest
      else first :: insert code factory rest

/-- Puts a factory under the number of its version. -/
def register (version : EthVersion) (factory : Factory ω) (registry : Registry ω) : Registry ω :=
  ⟨insert version.code factory registry.factories⟩

/-- Builds a handler for a version number with its factory. -/
def create (registry : Registry ω) (code : UInt8) (world : ω) : Except Error Handler × ω :=
  match registry.factories.lookup code with
  | none => (.error (.protocol (.unsupportedVersion code)), world)
  | some factory =>
      let (handler, world) := factory world
      (.ok handler, world)

def isSupported (registry : Registry ω) (code : UInt8) : Bool :=
  (registry.factories.lookup code).isSome

/-- The versions that there is a factory for, lowest first. -/
def versions (registry : Registry ω) : List EthVersion :=
  registry.factories.filterMap fun entry => EthVersion.ofCode? entry.1

def inspect (registry : Registry ω) : String :=
  let codes := registry.factories.map fun entry => toString entry.1.toNat
  "HandlerRegistry \x7b versions: [" ++ ", ".intercalate codes ++ "] \x7d"

end Registry

end NodeStore
