/-!
Versions of the Eth wire protocol.
-/

namespace NodeStore

/-- The known versions, lowest first. -/
inductive EthVersion where
  | v62
  | v63
deriving DecidableEq

namespace EthVersion

def all : List EthVersion := [.v62, .v63]

/-- The number that peers exchange. -/
def code : EthVersion → UInt8
  | .v62 => 62
  | .v63 => 63

/-- The version with a number, if it is a known one. -/
def ofCode? (code : UInt8) : Option EthVersion :=
  all.find? fun version => version.code = code

instance : Ord EthVersion where
  compare a b := compare a.code b.code

def render (version : EthVersion) : String :=
  "eth/" ++ toString version.code.toNat

/-- Every version is found by its number. -/
theorem ofCode?_code (version : EthVersion) : ofCode? version.code = some version := by
  cases version <;> decide

/-- A version is found by its own number only. -/
theorem ofCode?_eq_some_iff {code : UInt8} {version : EthVersion} :
    ofCode? code = some version ↔ version.code = code := by
  constructor
  · intro h
    simpa using List.find?_some h
  · intro h
    rw [← h, ofCode?_code]

theorem code_injective {a b : EthVersion} (h : a.code = b.code) : a = b :=
  Option.some.inj (by rw [← ofCode?_code a, h, ofCode?_code])

end EthVersion

end NodeStore
