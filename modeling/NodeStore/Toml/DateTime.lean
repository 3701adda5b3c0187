import NodeStore.Toml.Space

/-!
Dates and times: a date, a time of day, or both with or without an offset
from universal time.
-/

namespace NodeStore.Toml

/-- The number of exactly `count` decimal digits. -/
def fixedNumber (count : Nat) : Reader Nat := fun cs => do
  let digits := cs.take count
  guard (digits.length = count ∧ digits.all Char.isDigit)
  return (digits.foldl (fun n c => n * 10 + (c.toNat - 48)) 0, cs.drop count)

def twoDigits (least most : Nat) : Reader Nat := fun cs => do
  let (n, rest) ← fixedNumber 2 cs
  guard (least ≤ n ∧ n ≤ most)
  return (n, rest)

def isLeapYear (year : Nat) : Bool :=
  year % 4 = 0 && (year % 100 ≠ 0 || year % 400 = 0)

def daysOfMonth (year month : Nat) : Nat :=
  if month = 2 then if isLeapYear year then 29 else 28
  else if month = 4 ∨ month = 6 ∨ month = 9 ∨ month = 11 then 30
  else 31

def skipDate (cs : List Char) : Option (List Char) := do
  let (year, cs) ← fixedNumber 4 cs
  let cs ← char '-' cs
  let (month, cs) ← twoDigits 1 12 cs
  let cs ← char '-' cs
  let (_, cs) ← twoDigits 1 (daysOfMonth year month) cs
  return cs

def skipSecondFraction : List Char → List Char
  | '.' :: d :: cs => if d.isDigit then cs.dropWhile Char.isDigit else '.' :: d :: cs
  | cs => cs

/-- Hour, minute and second; a leap second is the sixtieth. -/
def skipTime (cs : List Char) : Option (List Char) := do
  let (_, cs) ← twoDigits 0 23 cs
  let cs ← char ':' cs
  let (_, cs) ← twoDigits 0 59 cs
  let cs ← char ':' cs
  let (_, cs) ← twoDigits 0 60 cs
  return skipSecondFraction cs

def skipOffset : List Char → Option (List Char)
  | [] => none
  | c :: cs =>
      if c = 'Z' || c = 'z' then some cs
      else if c = '+' || c = '-' then do
        let (_, cs) ← twoDigits 0 23 cs
        let cs ← char ':' cs
        let (_, cs) ← twoDigits 0 59 cs
        return cs
      else none

/-- The time after a date, set off by a letter or a blank. -/
def skipTimeOfDate : List Char → Option (List Char)
  | [] => none
  | c :: cs =>
      if c = 'T' || c = 't' || c = ' ' then do
        let cs ← skipTime cs
        return (skipOffset cs).getD cs
      else none

/-- A date, a date with a time, or a time. -/
def skipDateTime (cs : List Char) : Option (List Char) :=
  match skipDate cs with
  | some rest => some ((skipTimeOfDate rest).getD rest)
  | none => skipTime cs

def dateTime : Reader String := fun cs => do
  let rest ← skipDateTime cs
  return (String.ofList (cs.take (cs.length - rest.length)), rest)

end NodeStore.Toml
