import NodeStore.Fixture
import NodeStore.Proofs.Bytes
import NodeStore.Proofs.Key

/-!
Words made from numbers. A word is a number's eight bytes behind zeros, so it is read
back as the number, and since all words have one length, their order byte by byte is
that of the numbers.
-/

namespace NodeStore.Fixture

theorem length_word (n : Nat) : (word n).length = 32 := by
  rw [word, List.length_append, List.length_replicate, Bytes.length_ofNat]

/-- The zeros in front of a word add nothing: it is read back as its number. -/
theorem toNat_word {n : Nat} (h : n < 2 ^ 64) : Bytes.toNat (word n) = n := by
  rw [word, Bytes.toNat_append, Bytes.toNat_replicate_zero, Nat.zero_mul, Nat.zero_add,
    Bytes.toNat_ofNat]
  exact Nat.mod_eq_of_lt h

/-- As keys, words are ordered like their numbers. -/
theorem compare_word {m n : Nat} (hM : m < 2 ^ 64) (hN : n < 2 ^ 64) :
    compare (⟨word m⟩ : Key) ⟨word n⟩ = compare m n := by
  have hLength : (word m).length = (word n).length := (length_word m).trans (length_word n).symm
  change compare (word m) (word n) = compare m n
  rw [← Bytes.compare_toNat hLength, toNat_word hM, toNat_word hN]

theorem word_inj {m n : Nat} (hM : m < 2 ^ 64) (hN : n < 2 ^ 64) : word m = word n ↔ m = n := by
  constructor
  · intro hWord
    rw [← toNat_word hM, hWord, toNat_word hN]
  · rintro rfl
    rfl

/-- Sorting keys that are words sorts their numbers. -/
theorem sort_words (ns : List UInt64) :
    Key.sort (ns.map fun n => ⟨word n.toNat⟩) =
      (ns.mergeSort fun m n => m ≤ n).map fun n => ⟨word n.toNat⟩ := by
  rw [Key.sort, List.map_mergeSort]
  intro m _ n _
  rw [compare_word m.toNat_lt n.toNat_lt, Bool.eq_iff_iff, decide_eq_true_iff, Nat.isLE_compare,
    UInt64.le_iff_toNat_le]

/-- The word of a number has 32 bytes, which spell the number in base 256, most
significant byte first. Words are ordered as keys like their numbers are, so numbers
that differ have words that differ, and sorting words sorts their numbers. -/
theorem words_follow_numbers (i j : UInt64) (ns : List UInt64) :
    (word i.toNat).length = 32 ∧
    Bytes.toNat (word i.toNat) = i.toNat ∧
    compare (⟨word i.toNat⟩ : Key) ⟨word j.toNat⟩ = compare i.toNat j.toNat ∧
    (word i.toNat = word j.toNat ↔ i = j) ∧
    Key.sort (ns.map fun n => ⟨word n.toNat⟩) =
      (ns.mergeSort fun m n => m ≤ n).map fun n => ⟨word n.toNat⟩ := by
  refine ⟨length_word i.toNat, toNat_word i.toNat_lt, compare_word i.toNat_lt j.toNat_lt, ?_,
    sort_words ns⟩
  rw [word_inj i.toNat_lt j.toNat_lt, UInt64.toNat_inj]

end NodeStore.Fixture
