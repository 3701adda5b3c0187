import NodeStore.Bytes.Hex
import NodeStore.Toml.Space

/-!
Integers and numbers with a fraction or an exponent. Single underscores may
stand between digits. Integers fit into 64 bits with a sign. A number too
large for a double is refused if it is positive.
-/

namespace NodeStore.Toml

/-- The digits after a first one, without the underscores between them. -/
def moreDigits (isDigit : Char → Bool) : List Char → List Char × List Char
  | '_' :: d :: cs =>
      if isDigit d then
        let (digits, rest) := moreDigits isDigit cs
        (d :: digits, rest)
      else ([], '_' :: d :: cs)
  | d :: cs =>
      if isDigit d then
        let (digits, rest) := moreDigits isDigit cs
        (d :: digits, rest)
      else ([], d :: cs)
  | [] => ([], [])

def digitRun (isDigit : Char → Bool) : Reader (List Char)
  | [] => none
  | d :: cs =>
      if isDigit d then
        let (digits, rest) := moreDigits isDigit cs
        some (d :: digits, rest)
      else none

/-- A sign if there is one; whether it is a minus. -/
def sign : List Char → Bool × List Char
  | '+' :: cs => (false, cs)
  | '-' :: cs => (true, cs)
  | cs => (false, cs)

/-- The digits of a whole number: a zero alone, or digits that start with
another. -/
def wholeDigits : Reader (List Char)
  | '0' :: cs => some (['0'], cs)
  | cs => digitRun Char.isDigit cs

def numberOf (base : Nat) (digits : List Char) : Nat :=
  digits.foldl (fun n c => n * base + (Hex.digit? c).getD 0) 0

/-- The bound of integers: they reach from minus this to one less. -/
def integerBound : Int := Int.pow 2 63

def boundedInteger (n : Int) : Option Int :=
  if -integerBound ≤ n ∧ n < integerBound then some n else none

def basedInteger (base : Nat) (isDigit : Char → Bool) : Reader Int := fun cs => do
  let (digits, rest) ← digitRun isDigit cs
  let n ← boundedInteger (numberOf base digits)
  return (n, rest)

def isHexDigit (c : Char) : Bool := (Hex.digit? c).isSome

def isOctalDigit (c : Char) : Bool := '0' ≤ c && c ≤ '7'

def isBinaryDigit (c : Char) : Bool := c = '0' || c = '1'

def decimalInteger : Reader Int := fun cs => do
  let (negative, cs) := sign cs
  let (digits, rest) ← wholeDigits cs
  let magnitude : Int := numberOf 10 digits
  let n ← boundedInteger (if negative then -magnitude else magnitude)
  return (n, rest)

/-- An integer. Marks of a base take no sign. -/
def integer : Reader Int
  | '0' :: 'x' :: cs => basedInteger 16 isHexDigit cs
  | '0' :: 'o' :: cs => basedInteger 8 isOctalDigit cs
  | '0' :: 'b' :: cs => basedInteger 2 isBinaryDigit cs
  | cs => decimalInteger cs

/-- A number as its sign, all its digits, how many of them stand after the
point, and the exponent. -/
structure Decimal where
  negative : Bool
  digits : List Char
  places : Nat
  exponent : Int

/-- Half a step beyond the largest double: from here on a number rounds to
infinity. -/
def overflowBound : Nat := Nat.pow 2 1024 - Nat.pow 2 970

/-- Whether the number is positive and too large for a double. How many digits
stand before the point settles all but the numbers near the bound. -/
def Decimal.overflows (d : Decimal) : Bool :=
  let n := numberOf 10 d.digits
  let width : Int := (d.digits.dropWhile (· = '0')).length
  let scale := d.exponent - d.places
  if d.negative || n = 0 then false
  else if width + scale < 309 then false
  else if 309 < width + scale then true
  else if 0 ≤ scale then overflowBound ≤ n * Nat.pow 10 scale.toNat
  else overflowBound * Nat.pow 10 (-scale).toNat ≤ n

def exponent : Reader Int
  | e :: cs =>
      if e = 'e' || e = 'E' then do
        let (negative, cs) := sign cs
        let (digits, rest) ← digitRun Char.isDigit cs
        let magnitude : Int := numberOf 10 digits
        return (if negative then -magnitude else magnitude, rest)
      else none
  | [] => none

def fraction : Reader (List Char)
  | '.' :: cs => digitRun Char.isDigit cs
  | _ => none

def decimal : Reader Decimal := fun cs => do
  let (negative, cs) := sign cs
  let (whole, rest) ← wholeDigits cs
  match fraction rest with
  | some (places, rest) =>
      match exponent rest with
      | some (e, rest) => return (⟨negative, whole ++ places, places.length, e⟩, rest)
      | none => return (⟨negative, whole ++ places, places.length, 0⟩, rest)
  | none =>
      let (e, rest) ← exponent rest
      return (⟨negative, whole, 0, e⟩, rest)

/-- Infinity or not a number, with or without a sign. -/
def specialFloat (cs : List Char) : Option (List Char) :=
  let cs := (sign cs).2
  word ['i', 'n', 'f'] cs <|> word ['n', 'a', 'n'] cs

/-- A number that is no integer, as it is written. -/
def float : Reader String := fun cs => do
  let rest ← match decimal cs with
    | some (d, rest) => if d.overflows then none else some rest
    | none => specialFloat cs
  return (String.ofList (cs.take (cs.length - rest.length)), rest)

end NodeStore.Toml
