import NodeStore.Cache.Capacity
import NodeStore.Error

/-!
Settings of a datasource: a read cache, and an LMDB environment if there is
one. Sizes are machine words of 64 bits; validation finds the values that
could not be used.
-/

namespace NodeStore

/-- One more than the largest size that can be counted. -/
def sizeLimit : Nat := Nat.pow 2 64

def bytesPerMegabyte : Nat := Nat.pow 2 20

/-- What a read cache can be told. -/
structure CacheSettings where
  /-- The most entries to hold; every entry is kept without it. -/
  maxCapacity : Option Nat := none
  flushSource : Bool := false
deriving DecidableEq

/-- Where an environment is, and how large it may grow. -/
structure LmdbSettings where
  path : String
  maxSizeMb : Nat := 1024
deriving DecidableEq

/-- All settings. No environment is opened without settings for it. -/
structure Settings where
  cache : CacheSettings := {}
  lmdb : Option LmdbSettings := none
deriving DecidableEq

namespace CacheSettings

/-- The bound of the cache. A capacity of zero is no bound: `validate` reports
it. -/
def capacity (settings : CacheSettings) : Option Capacity :=
  settings.maxCapacity.bind Capacity.ofNat?

def zeroCapacity : Error :=
  .config (.invalidValue "cache.max_capacity" "0"
    "max_capacity must be greater than 0 (omit it for an unbounded cache)")

def validate (settings : CacheSettings) : Except Error Unit :=
  if settings.maxCapacity = some 0 then .error zeroCapacity else .ok ()

end CacheSettings

namespace LmdbSettings

/-- The size of the map in bytes, if it can be counted. -/
def mapSizeBytes (settings : LmdbSettings) : Option Nat :=
  -- a product is unfolded along its second factor, so the large number is the first one
  let bytes := bytesPerMegabyte * settings.maxSizeMb
  if bytes < sizeLimit then some bytes else none

def zeroSize : Error :=
  .config (.invalidValue "lmdb.max_size_mb" "0" "max_size_mb must be greater than 0")

def overflowingSize (maxSizeMb : Nat) : Error :=
  .config (.invalidValue "lmdb.max_size_mb" (toString maxSizeMb)
    "map size in bytes overflows usize")

def emptyPath : Error :=
  .config (.invalidValue "lmdb.path" "" "path must not be empty")

/-- The size must be positive and countable in bytes, and the path must name
something, in this order. -/
def validate (settings : LmdbSettings) : Except Error Unit :=
  if settings.maxSizeMb = 0 then .error zeroSize
  else if settings.mapSizeBytes = none then .error (overflowingSize settings.maxSizeMb)
  else if settings.path = "" then .error emptyPath
  else .ok ()

end LmdbSettings

/-- The cache is checked first, then the environment if there is one. -/
def Settings.validate (settings : Settings) : Except Error Unit :=
  match settings.cache.validate, settings.lmdb with
  | .error cause, _ => .error cause
  | .ok (), none => .ok ()
  | .ok (), some lmdb => lmdb.validate

end NodeStore
