/-!
Values of a TOML document. Numbers with a fraction and dates are kept as they
are written.
-/

namespace NodeStore.Toml

/-- How a table came to be, which decides what may still be added to it. -/
inductive Origin where
  /-- Named by a header of its own, or an element of an array of tables. -/
  | header
  /-- Implied by the header of a table inside it. -/
  | implied
  | dotted
  /-- Written between braces, and complete with them. -/
  | inline
deriving DecidableEq

inductive Value where
  | string (content : String)
  | integer (n : Int)
  | float (text : String)
  | boolean (b : Bool)
  | dateTime (text : String)
  | array (elements : List Value)
  | table (origin : Origin) (entries : List (String × Value))
  /-- An array of tables, the newest last. -/
  | tables (elements : List (List (String × Value)))

abbrev Entries := List (String × Value)

end NodeStore.Toml
