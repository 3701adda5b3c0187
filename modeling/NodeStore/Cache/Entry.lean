/-!
What a cache remembers of a lookup.
-/

namespace NodeStore

/-- A remembered answer: a value, or that there was none. -/
inductive Entry (υ : Type) where
  | present (value : υ)
  | absent
deriving DecidableEq

namespace Entry

variable {υ : Type}

/-- The entry for what a source answered. -/
def ofOption : Option υ → Entry υ
  | some value => .present value
  | none => .absent

/-- What a lookup is answered from an entry. -/
def value? : Entry υ → Option υ
  | .present value => some value
  | .absent => none

def isPresent : Entry υ → Bool
  | .present _ => true
  | .absent => false

def isAbsent (entry : Entry υ) : Bool := !entry.isPresent

theorem value?_ofOption (answer : Option υ) : (ofOption answer).value? = answer := by
  cases answer <;> rfl

theorem ofOption_value? (entry : Entry υ) : ofOption entry.value? = entry := by
  cases entry <;> rfl

end Entry

end NodeStore
