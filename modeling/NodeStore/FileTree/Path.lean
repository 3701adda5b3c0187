/-!
Paths as they are written. Slashes divide a path into parts, of which the
empty ones and single dots name nothing.
-/

namespace NodeStore

/-- What stands between the slashes of a path, in order, and whether the first slash
stands at the front. -/
structure Path where
  absolute : Bool
  parts : List String
deriving DecidableEq

namespace Path

def pieces : List Char → List (List Char)
  | [] => [[]]
  | c :: rest =>
      if c = '/' then [] :: pieces rest
      else
        match pieces rest with
        | [] => [[c]]
        | piece :: others => (c :: piece) :: others

def ofString (text : String) : Path where
  absolute := text.toList.head? = some '/'
  parts := (pieces text.toList).map String.ofList

/-- Whether nothing is written at all. -/
def isEmpty (path : Path) : Bool := !path.absolute && path.parts == [""]

/-- Whether a part names nothing. -/
def isBlank (part : String) : Bool := part = "" ∨ part = "."

def dropEnd (drops : String → Bool) (path : Path) : Path :=
  { path with parts := (path.parts.reverse.dropWhile drops).reverse }

def withoutSlashes (path : Path) : Path := path.dropEnd (· = "")

/-- The text of a path from its first name to its last; what is between them
stays as it was written. -/
def render (path : Path) : String :=
  "/".intercalate ((path.dropEnd isBlank).parts.dropWhile isBlank)

def parent (path : Path) : Path := { path with parts := path.parts.dropLast }

/-- The paths to the directories that hold what a path leads to, from the
highest down. -/
def ancestors (path : Path) : List Path :=
  let named := (path.dropEnd isBlank).parts
  (List.range named.length).map fun count => { path with parts := named.take count }

def byteCount (path : Path) : Nat :=
  (path.parts.map String.utf8ByteSize).foldl (· + ·) 0 + (path.parts.length - 1)

def hasNul (path : Path) : Bool := path.parts.any fun part => part.toList.contains '\x00'

end Path

end NodeStore
