/-!
What can go wrong, by layer, and the one place where each cause gets its text.
-/

namespace NodeStore

/-- Failures of a backing store. Caches never raise these on their own, they
only hand them on. -/
inductive StorageError where
  | io (reason : String)
  | backend (name reason : String)
deriving DecidableEq

/-- What keeps an item from being decoded. -/
inductive DecodeError where
  /-- The item would start at or past the end of the buffer. -/
  | outOfBounds (position length : Nat)
  /-- The item that starts at `position` breaks a rule of the format. -/
  | malformed (position : Nat) (reason : String)
deriving DecidableEq

/-- What keeps a registry from building a handler. -/
inductive ProtocolError where
  | unsupportedVersion (version : UInt8)
deriving DecidableEq

/-- Settings that cannot be read, or are no use. -/
inductive ConfigError where
  | invalidValue (field value reason : String)
  | parse (reason : String)
deriving DecidableEq

inductive Error where
  | storage (cause : StorageError)
  | decode (cause : DecodeError)
  | protocol (cause : ProtocolError)
  | config (cause : ConfigError)
deriving DecidableEq

def StorageError.message : StorageError → String
  | .io reason => "I/O error: " ++ reason
  | .backend name reason => "Backend " ++ name ++ " failed: " ++ reason

def DecodeError.message : DecodeError → String
  | .outOfBounds position length =>
      "Decode position " ++ toString position ++ " is outside of buffer of length " ++
        toString length
  | .malformed position reason =>
      "Malformed item at offset " ++ toString position ++ ": " ++ reason

def ProtocolError.message : ProtocolError → String
  | .unsupportedVersion version =>
      "Eth protocol version " ++ toString version.toNat ++ " is not supported"

def ConfigError.message : ConfigError → String
  | .invalidValue field value reason =>
      "Invalid value for " ++ field ++ ": " ++ value ++ " - " ++ reason
  | .parse reason => "Failed to parse configuration: " ++ reason

namespace Error

/-- The text of the cause alone, without the name of its layer. -/
def causeMessage : Error → String
  | .storage cause => cause.message
  | .decode cause => cause.message
  | .protocol cause => cause.message
  | .config cause => cause.message

/-- The name of the layer that failed. -/
def layer : Error → String
  | .storage _ => "Storage"
  | .decode _ => "Decode"
  | .protocol _ => "Protocol"
  | .config _ => "Config"

/-- The full text: which layer failed, then why. -/
def message (e : Error) : String :=
  e.layer ++ " error: " ++ e.causeMessage

end Error

end NodeStore
