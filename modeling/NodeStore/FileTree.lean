import NodeStore.FileTree.Path
import NodeStore.Source.Table

/-!
A tree of directories and plain files, as it is seen from a working directory.
A path is followed part by part, from there or from the root, and every part but the
last has to lead to a directory, also where the parts after it name nothing.
-/

namespace NodeStore

/-- Names from the root down. -/
abbrev Place := List String

inductive FileError where
  | missing
  | occupied
  | notDirectory
  | isDirectory
  | nameTooLong
  /-- The path has a character that would end it. -/
  | nulByte
deriving DecidableEq

def FileError.message : FileError → String
  | .missing => "No such file or directory (os error 2)"
  | .occupied => "File exists (os error 17)"
  | .notDirectory => "Not a directory (os error 20)"
  | .isDirectory => "Is a directory (os error 21)"
  | .nameTooLong => "File name too long (os error 36)"
  | .nulByte => "file name contained an unexpected NUL byte"

inductive Node (α : Type) where
  | directory
  | file (content : α)

/-- The nodes at their places. The working directory `here` and those above it need
no entry. -/
structure FileTree (here : Place) (α : Type) where
  nodes : Table Place (Node α) := Table.empty

def maxNameBytes : Nat := 255

def maxPathBytes : Nat := 4095

/-- The bytes of a place as it is written from the root on. -/
def Place.byteCount (place : Place) : Nat :=
  (place.map fun name => name.utf8ByteSize + 1).foldl (· + ·) 0

/-- The root is above itself. -/
def Place.parent (place : Place) : Place := place.dropLast

/-- Paths that cannot be handed to the file system are refused before they are
followed, and so are those that say nothing. -/
def Path.check (path : Path) : Except FileError Unit :=
  if path.hasNul then .error .nulByte
  else if maxPathBytes < path.byteCount then .error .nameTooLong
  else if path.isEmpty then .error .missing
  else .ok ()

/-- Where a path begins. -/
def Path.start (here : Place) (path : Path) : Place := if path.absolute then [] else here

namespace FileTree

variable {here : Place} {α : Type}

def node? (tree : FileTree here α) (place : Place) : Option (Node α) :=
  if place.isPrefixOf here then some .directory else tree.nodes.get? place

def insert (place : Place) (node : Node α) (tree : FileTree here α) : FileTree here α :=
  ⟨tree.nodes.insert place node⟩

def isDirectory (tree : FileTree here α) (place : Place) : Bool :=
  match tree.node? place with
  | some .directory => true
  | _ => false

def step (tree : FileTree here α) (place : Place) (part : String) : Except FileError Place :=
  if tree.isDirectory place = false then .error .notDirectory
  else if Path.isBlank part then .ok place
  else if part = ".." then .ok place.parent
  else if maxNameBytes < part.utf8ByteSize then .error .nameTooLong
  else if (tree.node? (place ++ [part])).isNone then .error .missing
  else .ok (place ++ [part])

def locate (tree : FileTree here α) (path : Path) : Except FileError Place := do
  path.check
  path.parts.foldlM tree.step (path.start here)

def contains (tree : FileTree here α) (path : Path) : Bool :=
  (tree.locate path).isOk

def leadsToDirectory (tree : FileTree here α) (path : Path) : Bool :=
  match tree.locate path with
  | .ok place => tree.isDirectory place
  | .error _ => false

/-- Puts a new node where a path leads, into a directory that is there. -/
def create (path : Path) (node : Node α) (tree : FileTree here α) :
    Except FileError (FileTree here α) :=
  match tree.locate path with
  | .ok _ => .error .occupied
  | .error .missing =>
      if path.isEmpty then .error .missing
      else do
        let directory ← tree.locate path.parent
        return tree.insert (directory ++ path.parts.getLast?.toList) node
  | .error e => .error e

/-- Makes a directory; slashes after its name do not matter. -/
def makeDirectory (path : Path) (tree : FileTree here α) : Except FileError (FileTree here α) :=
  tree.create path.withoutSlashes .directory

/-- Makes directories in order, of which some may be there already. The first
that cannot be made ends the attempt; those before it stay. -/
def makeEach : List Path → FileTree here α → Except FileError Unit × FileTree here α
  | [], tree => (.ok (), tree)
  | path :: paths, tree =>
      match tree.makeDirectory path with
      | .ok tree => makeEach paths tree
      | .error e =>
          if tree.leadsToDirectory path then makeEach paths tree else (.error e, tree)

/-- Makes a directory, and those above it if one of them is missing. A name with
a dot behind it has to be there already, as no ancestor ends in a dot. Nothing is made
for a path that says nothing. -/
def makeDirectories (path : Path) (tree : FileTree here α) :
    Except FileError Unit × FileTree here α :=
  if path.isEmpty then (.ok (), tree)
  else
    match makeEach [path] tree with
    | (.error .missing, _) => makeEach (path.ancestors ++ [path]) tree
    | answer => answer

/-- The content of the file at a place in a directory; a missing file is made
first. -/
def openFile (place : Place) (initial : α) (tree : FileTree here α) :
    Except FileError (α × FileTree here α) :=
  match tree.node? place with
  | some .directory => .error .isDirectory
  | some (.file content) => .ok (content, tree)
  | none => .ok (initial, tree.insert place (.file initial))

/-- Puts a file, in the place of the one that was there if any. -/
def writeFile (path : Path) (content : α) (tree : FileTree here α) :
    Except FileError (FileTree here α) :=
  match tree.locate path with
  | .ok place =>
      if tree.isDirectory place then .error .isDirectory
      else .ok (tree.insert place (.file content))
  | .error _ => tree.create path (.file content)

end FileTree

end NodeStore
