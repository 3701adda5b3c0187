import NodeStore.Records
import NodeStore.Source

/-!
A finite table as a source. Writes apply at once, so there is never anything
to flush. A write whose key cannot be hashed is abandoned before it touches
the table, and the table stays usable.
-/

namespace NodeStore

/-- Records under distinct keys, in no order that callers could see. -/
structure Table (κ υ : Type) where
  records : List (κ × υ)

namespace Table

variable {κ υ : Type} [DecidableEq κ]

def empty : Table κ υ := ⟨[]⟩

def get? (table : Table κ υ) (key : κ) : Option υ :=
  table.records.lookup key

/-- Looks a key up by what stands for it. A record is found if its key has the
hash looked for and the same thing stands for it. -/
def getBy? {β : Type} [BEq β] (hash : κ → UInt64) (view : κ → β) (code : UInt64) (seen : β)
    (table : Table κ υ) : Option υ :=
  (table.records.find? fun record => hash record.1 == code && view record.1 == seen).map Prod.snd

/-- Stores a value, in the place of the one that was there if any. -/
def insert (key : κ) (value : υ) (table : Table κ υ) : Table κ υ :=
  if (table.get? key).isSome then ⟨Records.replace key value table.records⟩
  else ⟨(key, value) :: table.records⟩

def erase (key : κ) (table : Table κ υ) : Table κ υ :=
  ⟨Records.erase key table.records⟩

@[simp] theorem get?_empty (key : κ) : (empty : Table κ υ).get? key = none := rfl

def size (table : Table κ υ) : Nat := table.records.length

def isEmpty (table : Table κ υ) : Bool := table.records.isEmpty

/-- Stores pairs in order, so that the last of equal keys wins. -/
def insertMany (pairs : List (κ × υ)) (table : Table κ υ) : Table κ υ :=
  pairs.foldl (fun table pair => table.insert pair.1 pair.2) table

def ofList (pairs : List (κ × υ)) : Table κ υ := empty.insertMany pairs

/-- Stores a value under a key that is hashed first; if hashing is abandoned,
so is the write. -/
def insertHashed (hashing : Outcome Unit) (key : κ) (value : υ) (table : Table κ υ) :
    Outcome Unit × Table κ υ :=
  match hashing with
  | .ok () => (.ok (), table.insert key value)
  | .error fault => (.error fault, table)

/-- The table's four calls. None of them fails. -/
def source : Source (Table κ υ) κ υ where
  get key table := (.ok (table.get? key), table)
  put key value table := (.ok (), table.insert key value)
  delete key table := (.ok (), table.erase key)
  flush table := (.ok false, table)

/-- A value that is stored is found under its key, and every other one where it was. -/
theorem get?_insert (key other : κ) (value : υ) (table : Table κ υ) :
    (table.insert key value).get? other = if other = key then some value else table.get? other := by
  rw [insert]
  split
  · next hSome =>
      obtain ⟨former, hFormer⟩ := Option.isSome_iff_exists.1 hSome
      split
      · next hOther =>
          rw [hOther, get?, Records.lookup_replace_self, ← get?, hFormer]
          rfl
      · next hOther => exact Records.lookup_replace_ne hOther value table.records
  · split
    · next hOther => rw [hOther, get?, List.lookup_cons_self]
    · next hOther => exact Records.lookup_cons_ne hOther value table.records

/-- A key that is taken out is not found, and every other one is found as before. -/
theorem get?_erase (key other : κ) (table : Table κ υ) :
    (table.erase key).get? other = if other = key then none else table.get? other := by
  split
  · next hOther =>
      rw [hOther]
      exact Records.lookup_erase_self key table.records
  · next hOther => exact Records.lookup_erase_ne hOther table.records

end Table

end NodeStore
