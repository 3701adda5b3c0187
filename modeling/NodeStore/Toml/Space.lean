/-!
Reading the text of a TOML document: the form of a reader, and what may stand
between its words, which is blanks, comments and line ends.
-/

namespace NodeStore.Toml

/-- Takes something off the front of a text and gives the rest, or refuses. -/
abbrev Reader (α : Type) := List Char → Option (α × List Char)

/-- Reads as often as `one` succeeds and takes something. -/
def many {α : Type} (one : Reader α) (cs : List Char) : List α × List Char :=
  match one cs with
  | none => ([], cs)
  | some (a, rest) =>
      if rest.length < cs.length then
        let (more, rest) := many one rest
        (a :: more, rest)
      else ([], cs)
termination_by cs.length

def char (c : Char) : List Char → Option (List Char)
  | [] => none
  | d :: cs => if c = d then some cs else none

def word : (letters : List Char) → List Char → Option (List Char)
  | [], cs => some cs
  | c :: letters, cs => (char c cs).bind (word letters)

/-- Items with a separator between each two of them, one at least. -/
def separated {α : Type} (item : Reader α) (separator : Char) : Reader (List α) := fun cs => do
  let (first, rest) ← item cs
  let (more, rest) := many (fun cs => (char separator cs).bind item) rest
  return (first :: more, rest)

def isBlank (c : Char) : Bool := c = ' ' || c = '\t'

/-- Any character but a control character; tabs are allowed. -/
def isText (c : Char) : Bool :=
  c = '\t' || (' ' ≤ c && c ≤ '~') || '\x80' ≤ c

def skipBlanks (cs : List Char) : List Char := cs.dropWhile isBlank

def newline : List Char → Option (List Char)
  | '\n' :: cs => some cs
  | '\r' :: '\n' :: cs => some cs
  | _ => none

/-- Takes blanks, a comment if there is one, and the end of the line or of the
text. -/
def lineEnd (cs : List Char) : Option (List Char) :=
  let cs := skipBlanks cs
  let cs := if cs.head? = some '#' then cs.dropWhile isText else cs
  if cs.isEmpty then some [] else newline cs

def skipSpace : List Char → List Char
  | [] => []
  | '\r' :: '\n' :: cs => skipSpace cs
  | c :: cs => if isBlank c || c = '\n' then skipSpace cs else c :: cs

/-- Skips blanks, line ends and comments; `inComment` says whether a comment
has begun on this line. -/
def skipLines : (inComment : Bool) → List Char → List Char
  | _, [] => []
  | _, '\n' :: cs => skipLines false cs
  | _, '\r' :: '\n' :: cs => skipLines false cs
  | true, c :: cs => if isText c then skipLines true cs else c :: cs
  | false, c :: cs =>
      if isBlank c then skipLines false cs
      else if c = '#' then skipLines true cs
      else c :: cs

end NodeStore.Toml
