/-!
Lists of records, each a key with what stands under it. `List.lookup` finds the
first record of a key; here are the changes that leave all other keys alone.
-/

namespace NodeStore.Records

variable {κ α : Type} [DecidableEq κ]

/-- Puts something else under a key, in its place. Without a record of the key
nothing changes. -/
def replace (key : κ) (value : α) (records : List (κ × α)) : List (κ × α) :=
  records.map fun record => if record.1 = key then (key, value) else record

/-- Takes every record of a key out. -/
def erase (key : κ) (records : List (κ × α)) : List (κ × α) :=
  records.filter fun record => record.1 ≠ key

theorem lookup_cons_ne {key other : κ} (h : other ≠ key) (value : α) (records : List (κ × α)) :
    ((key, value) :: records).lookup other = records.lookup other := by
  rw [List.lookup_cons, beq_false_of_ne h]

/-- Where keys are distinct, every record is the one that is found under its
key. -/
theorem lookup_of_mem {records : List (κ × α)} (hNodup : (records.map Prod.fst).Nodup) {key : κ}
    {value : α} (h : (key, value) ∈ records) : records.lookup key = some value := by
  obtain ⟨before, after, rfl⟩ := List.append_of_mem h
  rw [List.map_append, List.map_cons, List.nodup_append] at hNodup
  refine List.lookup_eq_some_iff.2 ⟨before, after, rfl, fun record hRecord => ?_⟩
  have hNe := hNodup.2.2 record.1 (List.mem_map_of_mem hRecord) key (List.mem_cons_self ..)
  exact bne_iff_ne.2 (Ne.symm hNe)

/-- What was put under a key is found there, if there was a record of it. -/
theorem lookup_replace_self (key : κ) (value : α) (records : List (κ × α)) :
    (replace key value records).lookup key = (records.lookup key).map fun _ => value := by
  induction records with
  | nil => rfl
  | cons record records ih =>
    rcases record with ⟨k, v⟩
    by_cases h : k = key
    · simp [replace, h]
    · have hReplace : replace key value ((k, v) :: records) = (k, v) :: replace key value records := by
        simp [replace, h]
      rw [hReplace, lookup_cons_ne (Ne.symm h), lookup_cons_ne (Ne.symm h), ih]

theorem lookup_replace_ne {key other : κ} (h : other ≠ key) (value : α) (records : List (κ × α)) :
    (replace key value records).lookup other = records.lookup other := by
  induction records with
  | nil => rfl
  | cons record records ih =>
    rcases record with ⟨k, v⟩
    simp only [replace, List.map_cons] at ih ⊢
    by_cases hKey : k = key
    · subst hKey
      rw [if_pos rfl, lookup_cons_ne h, lookup_cons_ne h, ih]
    · rw [if_neg hKey, List.lookup_cons, List.lookup_cons, ih]

theorem keys_replace (key : κ) (value : α) (records : List (κ × α)) :
    (replace key value records).map Prod.fst = records.map Prod.fst := by
  rw [replace, List.map_map]
  apply List.map_congr_left
  intro record _
  by_cases h : record.1 = key <;> simp [h]

/-- Of two things put under a key the second one stays. -/
theorem replace_replace (key : κ) (former value : α) (records : List (κ × α)) :
    replace key value (replace key former records) = replace key value records := by
  rw [replace, replace, replace, List.map_map]
  apply List.map_congr_left
  intro record _
  by_cases h : record.1 = key <;> simp [h]

/-- What is put under two different keys may be put there in either order. -/
theorem replace_comm {key other : κ} (h : key ≠ other) (value value' : α)
    (records : List (κ × α)) :
    replace key value (replace other value' records) =
      replace other value' (replace key value records) := by
  simp only [replace, List.map_map]
  apply List.map_congr_left
  intro record _
  by_cases hKey : record.1 = key <;> by_cases hOther : record.1 = other <;> simp_all [Ne.symm h]

/-- There is no place for what has no record. -/
theorem replace_of_lookup_eq_none {key : κ} {records : List (κ × α)}
    (h : records.lookup key = none) (value : α) : replace key value records = records := by
  rw [replace, List.map_congr_left, List.map_id]
  intro record hRecord
  exact if_neg (bne_iff_ne.1 (List.lookup_eq_none_iff.1 h record hRecord)).symm

/-- Nothing is found under a key that was taken out. -/
theorem lookup_erase_self (key : κ) (records : List (κ × α)) :
    (erase key records).lookup key = none := by
  rw [List.lookup_eq_none_iff]
  intro record hRecord
  have hKey : record.1 ≠ key := by simpa [erase] using (List.mem_filter.1 hRecord).2
  simpa using Ne.symm hKey

theorem lookup_erase_ne {key other : κ} (h : other ≠ key) (records : List (κ × α)) :
    (erase key records).lookup other = records.lookup other := by
  induction records with
  | nil => rfl
  | cons record records ih =>
    rcases record with ⟨k, v⟩
    by_cases hKey : k = key
    · subst hKey
      rw [lookup_cons_ne h, ← ih]
      simp [erase]
    · have hErase : erase key ((k, v) :: records) = (k, v) :: erase key records := by
        simp [erase, hKey]
      rw [hErase, List.lookup_cons, List.lookup_cons, ih]

/-- Taking out what is not there changes nothing. -/
theorem erase_of_lookup_eq_none {key : κ} {records : List (κ × α)}
    (h : records.lookup key = none) : erase key records = records := by
  refine List.filter_eq_self.2 fun record hRecord => ?_
  have hKey := List.lookup_eq_none_iff.1 h record hRecord
  simpa using Ne.symm (bne_iff_ne.1 hKey)

theorem keys_erase (key : κ) (records : List (κ × α)) :
    (erase key records).map Prod.fst = (records.map Prod.fst).filter fun other => other ≠ key := by
  rw [erase, List.filter_map]
  rfl

end NodeStore.Records
