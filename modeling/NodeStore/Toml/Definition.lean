import NodeStore.Records
import NodeStore.Toml.Quoted
import NodeStore.Toml.Value

/-!
Defining entries of nested tables. Nothing is defined twice. A header may add
to tables that other headers only implied; a dotted key adds to tables that
other dotted keys implied, and goes through the newest element of an array of
tables.
-/

namespace NodeStore.Toml

def Entries.add (name : String) (value : Value) (entries : Entries) : Entries :=
  entries ++ [(name, value)]

/-- How a path goes down through tables: as the parents of a header, or as the
parts of a dotted key. -/
inductive Descent where
  | header
  | dotted
deriving DecidableEq

/-- The origin of tables that a path brings into being. -/
def Descent.origin : Descent → Origin
  | .header => .implied
  | .dotted => .dotted

/-- Whether a path may go into a table of this origin. -/
def Descent.enters : Descent → Origin → Bool
  | _, .inline => false
  | .header, _ => true
  | .dotted, .header => false
  | .dotted, _ => true

/-- Changes the table at the end of a path by `change`, which is also given
the table's origin. -/
def changeAt (descent : Descent) (change : Origin → Entries → Option Entries) :
    (path : List String) → Origin → Entries → Option Entries
  | [], origin, entries => change origin entries
  | name :: path, _, entries =>
      match entries.lookup name with
      | none => do
          let inner ← changeAt descent change path descent.origin []
          return Entries.add name (.table descent.origin inner) entries
      | some (.table origin inner) => do
          guard (descent.enters origin)
          let inner ← changeAt descent change path origin inner
          return Records.replace name (.table origin inner) entries
      | some (.tables elements) => do
          let newest ← elements.getLast?
          let newest ← changeAt descent change path .header newest
          return Records.replace name (.tables (elements.dropLast ++ [newest])) entries
      | some _ => none

/-- Gives a value to a key. The table that a dotted key leads to must have been
implied by dotted keys. -/
def assign (key : KeyPath) (value : Value) (origin : Origin) (entries : Entries) :
    Option Entries :=
  changeAt .dotted (fun origin entries => do
      guard (key.parents = [] ∨ origin = .dotted)
      guard (entries.lookup key.name).isNone
      return Entries.add key.name value entries)
    key.parents origin entries

def openTable (key : KeyPath) (root : Entries) : Option Entries :=
  changeAt .header (fun _ entries =>
      match entries.lookup key.name with
      | none => some (Entries.add key.name (.table .header []) entries)
      | some (.table .implied inner) =>
          some (Records.replace key.name (.table .header inner) entries)
      | some _ => none)
    key.parents .header root

def openElement (key : KeyPath) (root : Entries) : Option Entries :=
  changeAt .header (fun _ entries =>
      match entries.lookup key.name with
      | none => some (Entries.add key.name (.tables [[]]) entries)
      | some (.tables elements) =>
          some (Records.replace key.name (.tables (elements ++ [[]])) entries)
      | some _ => none)
    key.parents .header root

def inlineEntries (assignments : List (KeyPath × Value)) : Option Entries :=
  assignments.foldlM (fun entries (key, value) => assign key value .inline entries) []

end NodeStore.Toml
