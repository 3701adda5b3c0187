import NodeStore.FileTree
import NodeStore.Lmdb.Environment
import NodeStore.Settings

/-!
A file tree that holds LMDB environments, one to a directory. An environment
that was opened stays open, with the size it was opened with, so all sources
on one directory share its records.
-/

namespace NodeStore.Lmdb

inductive Content where
  /-- The data of an environment, with the size in bytes of the map that it was
  first made for. -/
  | data (mapSize : Nat)
  | other

/-- An environment and the size in bytes that it was opened with. -/
structure Opened where
  requestedSize : Nat
  environment : Environment

/-- The files of a volume, as they are seen from the working directory `here`, and the
environments opened so far by their directories. -/
structure Volume (here : Place) where
  tree : FileTree here Content := {}
  opened : Table Place Opened := Table.empty

namespace Volume

variable {here : Place}

def cannotOpen (cause : FileError) : LmdbError := .envOpen cause.message

def invalidFile : LmdbError := .envOpen "MDB_INVALID: File is not an LMDB file"

def outOfMemory : LmdbError := .envOpen "Cannot allocate memory (os error 12)"

def differentOptions : LmdbError :=
  .envOpen "an environment is already opened with different options"

def overflowingSize (maxSizeMb : Nat) : LmdbError :=
  .envOpen ("map size of " ++ toString maxSizeMb ++ " MB overflows usize")

/-- The largest map. A program lies two thirds up the addresses of its process,
and the map has to fit below it. -/
def largestMap : Nat := Nat.pow 2 48 / 3

/-- The size of a new map that was given none. -/
def defaultMapSize : Nat := Nat.pow 2 20

def makeFile (path : String) (volume : Volume here) : Volume here :=
  match volume.tree.writeFile (Path.ofString path) .other with
  | .ok tree => { volume with tree }
  | .error _ => volume

def contains (volume : Volume here) (path : String) : Bool :=
  volume.tree.contains (Path.ofString path)

/-- Opens the two files of an environment, the lock before the data, and
answers the size of its map. They are named from the root on. No size given means the
size that the data was made for. -/
def openFiles (directory : Place) (size : Nat) (tree : FileTree here Content) :
    Except LmdbError Nat × FileTree here Content :=
  if maxPathBytes < (directory ++ ["lock.mdb"]).byteCount then (.error (cannotOpen .nameTooLong), tree)
  else
    match tree.openFile (directory ++ ["lock.mdb"]) .other with
    | .error e => (.error (cannotOpen e), tree)
    | .ok (_, tree) =>
        let initialSize := if size = 0 then defaultMapSize else size
        match tree.openFile (directory ++ ["data.mdb"]) (.data initialSize) with
        | .error e => (.error (cannotOpen e), tree)
        | .ok (.other, tree) => (.error invalidFile, tree)
        | .ok (.data knownSize, tree) =>
            let mapSize := if size = 0 then knownSize else size
            (if largestMap < mapSize then .error outOfMemory else .ok mapSize, tree)

/-- Opens the environment of a directory. One that is open already is shared. -/
def openDirectory (directory : Place) (size : Nat) (volume : Volume here) :
    Except LmdbError Place × Volume here :=
  match volume.opened.get? directory with
  | some opened =>
      (if opened.requestedSize = size then .ok directory else .error differentOptions, volume)
  | none =>
      match openFiles directory size volume.tree with
      | (.error e, tree) => (.error e, { volume with tree })
      | (.ok mapSize, tree) =>
          (.ok directory, ⟨tree, volume.opened.insert directory ⟨size, { mapSize }⟩⟩)

/-- The size in bytes of a map of `maxSizeMb` megabytes, if it can be counted. -/
def countBytes (maxSizeMb : Nat) : Option Nat :=
  let size := 1024 * 1024 * maxSizeMb
  if size < sizeLimit then some size else none

/-- Opens or creates an environment with a map of `size` bytes. -/
def openSized (path : String) (size : Nat) (volume : Volume here) :
    Except LmdbError Place × Volume here :=
  match volume.tree.makeDirectories (Path.ofString path) with
  | (.error e, tree) => (.error (.io e.message), { volume with tree })
  | (.ok (), tree) =>
      match tree.locate (Path.ofString path) with
      | .error e => (.error (cannotOpen e), { volume with tree })
      | .ok directory => openDirectory directory size { volume with tree }

/-- Opens or creates an environment. A size that cannot be counted is found
before any directory is made. -/
def openPath (path : String) (maxSizeMb : Nat) (volume : Volume here) :
    Except LmdbError Place × Volume here :=
  match countBytes maxSizeMb with
  | none => (.error (overflowingSize maxSizeMb), volume)
  | some size => volume.openSized path size

def openSettings (settings : LmdbSettings) (volume : Volume here) : Except Error Place × Volume here :=
  match settings.validate with
  | .error cause => (.error cause, volume)
  | .ok () =>
      let (result, volume) := volume.openPath settings.path settings.maxSizeMb
      (result.mapError LmdbError.toError, volume)

/-- Invalid settings change nothing. -/
theorem openSettings_of_error {settings : LmdbSettings} {cause : Error}
    (h : settings.validate = .error cause) (volume : Volume here) :
    volume.openSettings settings = (.error cause, volume) := by
  rw [openSettings, h]

/-- The environment open in a directory, an empty one if there is none. -/
def environment (volume : Volume here) (directory : Place) : Environment :=
  match volume.opened.get? directory with
  | some opened => opened.environment
  | none => { mapSize := defaultMapSize }

def setEnvironment (directory : Place) (environment : Environment) (volume : Volume here) :
    Volume here :=
  match volume.opened.get? directory with
  | some opened =>
      { volume with opened := volume.opened.insert directory { opened with environment } }
  | none => volume

def within {α : Type} (directory : Place) (call : Environment → Outcome α × Environment)
    (volume : Volume here) : Outcome α × Volume here :=
  let (outcome, environment) := call (volume.environment directory)
  (outcome, volume.setEnvironment directory environment)

def source (engine : Engine) (directory : Place) : Source (Volume here) Key Bytes where
  get key := within directory ((Environment.source engine).get key)
  put key value := within directory ((Environment.source engine).put key value)
  delete key := within directory ((Environment.source engine).delete key)
  flush := within directory (Environment.source engine).flush

end Volume

end NodeStore.Lmdb
