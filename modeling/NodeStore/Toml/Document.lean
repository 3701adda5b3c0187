import NodeStore.Toml.DateTime
import NodeStore.Toml.Definition
import NodeStore.Toml.Number

/-!
TOML documents: the values that may follow an equals sign, the lines that make
up a document, and the table that these lines define.
-/

namespace NodeStore.Toml

def scalar (cs : List Char) : Option (Value × List Char) :=
  ((string cs).map fun (s, rest) => (.string s, rest)) <|>
  ((word ['t', 'r', 'u', 'e'] cs).map fun rest => (.boolean true, rest)) <|>
  ((word ['f', 'a', 'l', 's', 'e'] cs).map fun rest => (.boolean false, rest)) <|>
  ((dateTime cs).map fun (s, rest) => (.dateTime s, rest)) <|>
  ((float cs).map fun (s, rest) => (.float s, rest)) <|>
  ((integer cs).map fun (n, rest) => (.integer n, rest))

/-- The rest of an array after its opening bracket. A comma may follow the
last element. -/
def arrayBody (value : Reader Value) (cs : List Char) : Option (Value × List Char) := do
  let element : Reader Value := fun cs => do
    let (v, rest) ← value (skipLines false cs)
    return (v, skipLines false rest)
  let (elements, rest) := match separated element ',' cs with
    | some (elements, rest) => (elements, (char ',' rest).getD rest)
    | none => ([], cs)
  let rest ← char ']' (skipLines false rest)
  return (.array elements, rest)

def assignment (value : Reader Value) : Reader (KeyPath × Value) := fun cs => do
  let (key, rest) ← keyPath cs
  let rest ← char '=' rest
  let (v, rest) ← value (skipBlanks rest)
  return ((key, v), rest)

/-- The rest of a table on one line after its opening brace. -/
def inlineTableBody (value : Reader Value) (cs : List Char) : Option (Value × List Char) := do
  let entry : Reader (KeyPath × Value) := fun cs => do
    let (entry, rest) ← assignment value cs
    return (entry, skipBlanks rest)
  let (assignments, rest) := (separated entry ',' cs).getD ([], cs)
  let rest ← char '}' (skipBlanks rest)
  let entries ← inlineEntries assignments
  return (.table .inline entries, rest)

/-- A value with at most `levels` arrays and tables inside one another. -/
def value : (levels : Nat) → Reader Value
  | 0, cs => scalar cs
  | levels + 1, cs =>
      match cs with
      | '[' :: rest => arrayBody (value levels) rest
      | '{' :: rest => inlineTableBody (value levels) rest
      | _ => scalar cs

def anyValue : Reader Value := value (nestingLimit - 1)

inductive Statement where
  | assignment (key : KeyPath) (value : Value)
  | table (key : KeyPath)
  | element (key : KeyPath)

/-- A header: a key between brackets, two for an element of an array of
tables. -/
def header : Reader Statement
  | '[' :: '[' :: cs => do
      let (key, rest) ← keyPath cs
      let rest ← word [']', ']'] rest
      return (.element key, rest)
  | '[' :: cs => do
      let (key, rest) ← keyPath cs
      let rest ← char ']' rest
      return (.table key, rest)
  | _ => none

/-- What a line says, if it says anything. -/
def statement (cs : List Char) : Option (Option Statement × List Char) :=
  match cs.head? with
  | some '[' => (header cs).map fun (s, rest) => (some s, rest)
  | none | some '\n' | some '\r' | some '#' => some (none, cs)
  | _ => (assignment anyValue cs).map fun ((key, v), rest) => (some (.assignment key v), rest)

def line : Reader (Option Statement) := fun cs => do
  let (s, rest) ← statement (skipBlanks cs)
  let rest ← lineEnd rest
  return (s, rest)

def statements (cs : List Char) : Option (List Statement) :=
  let (lines, rest) := many line cs
  if rest.isEmpty then some (lines.filterMap id) else none

/-- What has been defined so far, and the header in force. -/
structure Draft where
  root : Entries := []
  heading? : Option KeyPath := none

def Draft.apply (draft : Draft) : Statement → Option Draft
  | .table key => do
      let root ← openTable key draft.root
      return ⟨root, some key⟩
  | .element key => do
      let root ← openElement key draft.root
      return ⟨root, some key⟩
  | .assignment key v => do
      let path := match draft.heading? with
        | none => []
        | some heading => heading.parents ++ [heading.name]
      let root ← changeAt .header (assign key v) path .header draft.root
      return { draft with root }

/-- The table that statements define, if they agree with each other. -/
def define (statements : List Statement) : Option Entries :=
  (statements.foldlM Draft.apply {}).map Draft.root

def dropByteOrderMark : List Char → List Char
  | '\ufeff' :: cs => cs
  | cs => cs

def parse (text : String) : Option Entries :=
  (statements (dropByteOrderMark text.toList)).bind define

end NodeStore.Toml
