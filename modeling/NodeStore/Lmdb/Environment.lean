import NodeStore.Key
import NodeStore.Lmdb.Error
import NodeStore.Source.Table

/-!
An LMDB environment with one database of byte strings. Every write is a
committed transaction of its own, so nothing is ever left to flush, and a
refused write changes nothing. When the map is full is left to the engine, which
is a parameter of all writes.
-/

namespace NodeStore.Lmdb

inductive Refusal where
  /-- The key is empty, or too long to be stored. -/
  | badValueSize
  | mapFull
deriving DecidableEq

def Refusal.text : Refusal → String
  | .badValueSize =>
      "MDB_BAD_VALSIZE: Unsupported size of key/DB name/data, or wrong DUPFIXED size"
  | .mapFull => "MDB_MAP_FULL: Environment mapsize limit reached"

def Refusal.toFault (refusal : Refusal) : Fault :=
  .failure (LmdbError.transaction refusal.text).toError

def maxKeyLength : Nat := 511

/-- The records of an environment and the size of its map in bytes. -/
structure Environment where
  mapSize : Nat
  records : Table Key Bytes := Table.empty

/-- What an engine decides by itself: whether there is a reason to refuse a write whose
key can be stored, such as that its pages find no room in the map. A removal has no
value. The engine goes by what it keeps beside the records, so it may decide otherwise
on the same ones. -/
abbrev Engine := Environment → Key → Option Bytes → Option Refusal

/-- An engine that keeps no account of its pages: only a value as large as the whole map
finds no room. -/
def Engine.withoutPages : Engine := fun env _ value? =>
  if (value?.any fun value => env.mapSize ≤ value.length) then some .mapFull else none

namespace Environment

/-- The value of a key; only the empty key is refused. -/
def get (key : Key) (env : Environment) : Except Refusal (Option Bytes) :=
  if key.isEmpty then .error .badValueSize else .ok (env.records.get? key)

/-- Why a value is not stored, if it is not. The key is checked before the engine looks
for room. -/
def putRefusal? (engine : Engine) (key : Key) (value : Bytes) (env : Environment) :
    Option Refusal :=
  if key.isEmpty ∨ maxKeyLength < key.length then some .badValueSize
  else engine env key (some value)

/-- Why a key is not removed, if it is not. For one that is not there, however long, no
page has to be touched. -/
def deleteRefusal? (engine : Engine) (key : Key) (env : Environment) : Option Refusal :=
  if key.isEmpty then some .badValueSize
  else if (env.records.get? key).isNone then none
  else engine env key none

def put (engine : Engine) (key : Key) (value : Bytes) (env : Environment) :
    Except Refusal Environment :=
  match env.putRefusal? engine key value with
  | some refusal => .error refusal
  | none => .ok { env with records := env.records.insert key value }

def delete (engine : Engine) (key : Key) (env : Environment) : Except Refusal Environment :=
  match env.deleteRefusal? engine key with
  | some refusal => .error refusal
  | none => .ok { env with records := env.records.erase key }

/-- Stores pairs in order, and leaves out those that are refused. -/
def putMany (engine : Engine) (pairs : List (Key × Bytes)) (env : Environment) : Environment :=
  pairs.foldl (fun env pair => (env.put engine pair.1 pair.2).toOption.getD env) env

def size (env : Environment) : Nat := env.records.size

/-- A transaction that writes: a refusal rolls it back. -/
def commit (transaction : Environment → Except Refusal Environment) (env : Environment) :
    Outcome Unit × Environment :=
  match transaction env with
  | .ok env => (.ok (), env)
  | .error refusal => (.error refusal.toFault, env)

def source (engine : Engine) : Source Environment Key Bytes where
  get key env :=
    match env.get key with
    | .ok answer => (.ok answer, env)
    | .error refusal => (.error refusal.toFault, env)
  put key value := commit (put engine key value)
  delete key := commit (delete engine key)
  flush env := (.ok false, env)

end Environment

end NodeStore.Lmdb
