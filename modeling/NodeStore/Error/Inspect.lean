import NodeStore.Error
import NodeStore.Text.Quoted

/-!
Errors and results spelled out by constructor and field, for messages that
must show everything.
-/

namespace NodeStore.Inspect

/-- A constructor with one unnamed field. -/
def wrap (name argument : String) : String :=
  name ++ "(" ++ argument ++ ")"

/-- A constructor with named fields; the braces are written by their codes. -/
def record (name : String) (fields : List (String × String)) : String :=
  let shown := fields.map fun field => field.1 ++ ": " ++ field.2
  name ++ " \x7b " ++ ", ".intercalate shown ++ " \x7d"

/-- Texts inside are quoted and escaped. -/
def storage : StorageError → String
  | .io reason => record "Io" [("reason", Text.quote reason)]
  | .backend name reason =>
      record "Backend" [("backend", Text.quote name), ("reason", Text.quote reason)]

def decode : DecodeError → String
  | .outOfBounds position length =>
      record "OutOfBounds" [("position", toString position), ("len", toString length)]
  | .malformed position reason =>
      record "Malformed" [("position", toString position), ("reason", Text.quote reason)]

def protocol : ProtocolError → String
  | .unsupportedVersion version =>
      record "UnsupportedVersion" [("version", toString version.toNat)]

def config : ConfigError → String
  | .invalidValue field value reason =>
      record "InvalidValue"
        [("field", Text.quote field), ("value", Text.quote value), ("reason", Text.quote reason)]
  | .parse reason => record "Parse" [("reason", Text.quote reason)]

/-- An error by its layer, with the cause in it. -/
def error (e : Error) : String :=
  wrap e.layer (match e with
    | .storage cause => storage cause
    | .decode cause => decode cause
    | .protocol cause => protocol cause
    | .config cause => config cause)

/-- A result, of which a value is shown by its number. -/
def result : Except Error Nat → String
  | .ok n => wrap "Ok" (toString n)
  | .error e => wrap "Err" (error e)

end NodeStore.Inspect
