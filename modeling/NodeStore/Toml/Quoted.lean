import NodeStore.Bytes.Hex
import NodeStore.Toml.Space

/-!
Strings and keys. Basic strings stand in double quotes and know escapes,
literal strings stand in single quotes and know none; either may span lines
between three quotes.
-/

namespace NodeStore.Toml

def hexNumber (digits : List Char) : Option Nat :=
  digits.foldlM (fun n c => (Hex.digit? c).map (n * 16 + ·)) 0

/-- The character with a given code point. Surrogates are none. -/
def charOfNumber (n : Nat) : Option Char :=
  if n.isValidChar then some (Char.ofNat n) else none

def hexEscape (count : Nat) (cs : List Char) : Option (Char × List Char) := do
  let digits := cs.take count
  guard (digits.length = count)
  let c ← (hexNumber digits).bind charOfNumber
  return (c, cs.drop count)

def escape : Reader Char
  | 'b' :: cs => some ('\x08', cs)
  | 't' :: cs => some ('\t', cs)
  | 'n' :: cs => some ('\n', cs)
  | 'f' :: cs => some ('\x0c', cs)
  | 'r' :: cs => some ('\r', cs)
  | '"' :: cs => some ('"', cs)
  | '\\' :: cs => some ('\\', cs)
  | 'u' :: cs => hexEscape 4 cs
  | 'U' :: cs => hexEscape 8 cs
  | _ => none

theorem hexEscape_length {count : Nat} {cs rest : List Char} {c : Char}
    (h : hexEscape count cs = some (c, rest)) : rest.length ≤ cs.length := by
  unfold hexEscape at h
  obtain ⟨_, -, h⟩ := Option.bind_eq_some_iff.1 h
  obtain ⟨_, -, h⟩ := Option.bind_eq_some_iff.1 h
  cases h
  simp

theorem escape_length {cs rest : List Char} {c : Char} (h : escape cs = some (c, rest)) :
    rest.length < cs.length := by
  unfold escape at h
  split at h
  case h_8 | h_9 =>
    have hRest := hexEscape_length h
    simp only [List.length_cons]
    omega
  case h_10 => simp at h
  all_goals
    cases h
    simp

/-- What follows the opening quote of a basic string, up to the closing one. -/
def basicBody : Reader (List Char)
  | [] => none
  | '"' :: rest => some ([], rest)
  | '\\' :: rest =>
      match _ : escape rest with
      | none => none
      | some (c, rest) => do
          let (body, rest) ← basicBody rest
          return (c :: body, rest)
  | c :: rest =>
      if isText c then do
        let (body, rest) ← basicBody rest
        return (c :: body, rest)
      else none
termination_by cs => cs.length
decreasing_by
  · have := escape_length ‹_›
    simp only [List.length_cons]
    omega
  · simp

/-- What a backslash at the end of a line skips: that line end, and all blanks
and line ends up to the next character. -/
def continuation (cs : List Char) : Option (List Char) :=
  (newline (skipBlanks cs)).map skipSpace

theorem skipBlanks_length (cs : List Char) : (skipBlanks cs).length ≤ cs.length :=
  (List.dropWhile_sublist _).length_le

theorem newline_length {cs rest : List Char} (h : newline cs = some rest) :
    rest.length < cs.length := by
  unfold newline at h
  split at h
  · cases h
    simp
  · cases h
    simp only [List.length_cons]
    omega
  · simp at h

theorem skipSpace_length (cs : List Char) : (skipSpace cs).length ≤ cs.length := by
  fun_induction skipSpace cs with
  | case1 => simp
  | case2 cs ih =>
    simp only [List.length_cons]
    omega
  | case3 c cs _ _ ih =>
    simp only [List.length_cons]
    omega
  | case4 => simp

theorem continuation_length {cs rest : List Char} (h : continuation cs = some rest) :
    rest.length < cs.length := by
  simp only [continuation, Option.map_eq_some_iff] at h
  obtain ⟨line, hLine, rfl⟩ := h
  have hBlanks := skipBlanks_length cs
  have hNewline := newline_length hLine
  have hSpace := skipSpace_length line
  omega

/-- What follows the opening quotes of a basic string over several lines, up
to the closing ones. One or two quotes may stand right before these. -/
def basicLinesBody : Reader (List Char)
  | [] => none
  | '"' :: '"' :: '"' :: '"' :: '"' :: rest => some (['"', '"'], rest)
  | '"' :: '"' :: '"' :: '"' :: rest => some (['"'], rest)
  | '"' :: '"' :: '"' :: rest => some ([], rest)
  | '\r' :: '\n' :: rest => do
      let (body, rest) ← basicLinesBody rest
      return ('\n' :: body, rest)
  | '\\' :: rest =>
      match _ : continuation rest with
      | some rest => basicLinesBody rest
      | none =>
          match _ : escape rest with
          | none => none
          | some (c, rest) => do
              let (body, rest) ← basicLinesBody rest
              return (c :: body, rest)
  | c :: rest =>
      if isText c || c = '\n' then do
        let (body, rest) ← basicLinesBody rest
        return (c :: body, rest)
      else none
termination_by cs => cs.length
decreasing_by
  · simp only [List.length_cons]
    omega
  · have := continuation_length ‹_›
    simp only [List.length_cons]
    omega
  · have := escape_length ‹_›
    simp only [List.length_cons]
    omega
  · simp

/-- What follows the opening quote of a literal string, up to the closing
one. -/
def literalBody : Reader (List Char)
  | [] => none
  | '\'' :: rest => some ([], rest)
  | c :: rest =>
      if isText c then do
        let (body, rest) ← literalBody rest
        return (c :: body, rest)
      else none

/-- What follows the opening quotes of a literal string over several lines, up
to the closing ones. -/
def literalLinesBody : Reader (List Char)
  | [] => none
  | '\'' :: '\'' :: '\'' :: '\'' :: '\'' :: rest => some (['\'', '\''], rest)
  | '\'' :: '\'' :: '\'' :: '\'' :: rest => some (['\''], rest)
  | '\'' :: '\'' :: '\'' :: rest => some ([], rest)
  | '\r' :: '\n' :: rest => do
      let (body, rest) ← literalLinesBody rest
      return ('\n' :: body, rest)
  | c :: rest =>
      if isText c || c = '\n' then do
        let (body, rest) ← literalLinesBody rest
        return (c :: body, rest)
      else none

def dropNewline (cs : List Char) : List Char := (newline cs).getD cs

def lineString : Reader String
  | '"' :: cs => (basicBody cs).map fun (body, rest) => (String.ofList body, rest)
  | '\'' :: cs => (literalBody cs).map fun (body, rest) => (String.ofList body, rest)
  | _ => none

def string : Reader String
  | '"' :: '"' :: '"' :: cs =>
      (basicLinesBody (dropNewline cs)).map fun (body, rest) => (String.ofList body, rest)
  | '\'' :: '\'' :: '\'' :: cs =>
      (literalLinesBody (dropNewline cs)).map fun (body, rest) => (String.ofList body, rest)
  | cs => lineString cs

def isBareKeyChar (c : Char) : Bool :=
  c.isAlphanum || c = '-' || c = '_'

/-- A key of letters, digits, dashes and underscores. -/
def bareKey (cs : List Char) : Option (String × List Char) :=
  let name := cs.takeWhile isBareKeyChar
  if name.isEmpty then none else some (String.ofList name, cs.dropWhile isBareKeyChar)

def keyPart : Reader String := fun cs => do
  let cs := skipBlanks cs
  let (name, rest) ← lineString cs <|> bareKey cs
  return (name, skipBlanks rest)

/-- A key with the tables that lead to it. -/
structure KeyPath where
  parents : List String
  name : String

/-- One more than the most parts that a dotted key may have. -/
def nestingLimit : Nat := 80

/-- A key: parts with dots between them. -/
def keyPath : Reader KeyPath := fun cs => do
  let (parts, rest) ← separated keyPart '.' cs
  guard (parts.length < nestingLimit)
  let name ← parts.getLast?
  return (⟨parts.dropLast, name⟩, rest)

end NodeStore.Toml
