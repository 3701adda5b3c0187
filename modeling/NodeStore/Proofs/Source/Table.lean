import Mathlib
import NodeStore.Source.Table

/-!
Tables as maps. Whatever is stored and removed, no key stands twice in a table, so
its size is the number of keys that have a value.
-/

namespace NodeStore.Table

variable {κ υ : Type} {table : Table κ υ}

def keys (table : Table κ υ) : List κ := table.records.map Prod.fst

/-- No key stands twice. -/
def Distinct (table : Table κ υ) : Prop := table.keys.Nodup

variable [DecidableEq κ]

/-- The keys of a table are those that a lookup finds. -/
theorem mem_keys_iff {key : κ} : key ∈ table.keys ↔ table.get? key ≠ none := by
  rw [get?, ne_eq, List.lookup_eq_none_iff, keys, List.mem_map]
  simp only [bne_iff_ne, not_forall, not_ne_iff]
  constructor
  · rintro ⟨record, hMem, rfl⟩
    exact ⟨record, hMem, rfl⟩
  · rintro ⟨record, hMem, rfl⟩
    exact ⟨record, hMem, rfl⟩

/-- A table grows by one if the key is new to it, and else not at all. -/
theorem size_insert (key : κ) (value : υ) (table : Table κ υ) :
    (table.insert key value).size =
      if (table.get? key).isSome then table.size else table.size + 1 := by
  rw [insert]
  split
  · exact List.length_map ..
  · rfl

/-- A value that is stored takes the place of the one under the same key, if there is
one. -/
theorem Distinct.insert (h : table.Distinct) (key : κ) (value : υ) :
    (table.insert key value).Distinct := by
  rw [Distinct, keys, Table.insert]
  split
  · rw [Records.keys_replace]
    exact h
  · next hNone =>
      have hNew : key ∉ table.keys := by
        rw [mem_keys_iff, not_ne_iff]
        exact Option.not_isSome_iff_eq_none.1 hNone
      exact List.nodup_cons.2 ⟨hNew, h⟩

theorem Distinct.erase (h : table.Distinct) (key : κ) : (table.erase key).Distinct := by
  rw [Distinct, keys, Table.erase, Records.keys_erase]
  exact h.filter _

end NodeStore.Table
