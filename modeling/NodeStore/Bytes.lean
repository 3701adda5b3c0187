/-!
Byte strings and the numbers they spell, most significant byte first.
-/

namespace NodeStore

abbrev Bytes := List UInt8

namespace Bytes

/-- The number that `bytes` spells in base 256, most significant byte first. -/
def toNat (bytes : Bytes) : Nat :=
  bytes.foldl (fun n b => n * 256 + b.toNat) 0

/-- The last `count` base-256 digits of `n`, most significant first. Digits
beyond the `count`-th are dropped, missing ones are zero. -/
def ofNat : (count n : Nat) → Bytes
  | 0, _ => []
  | count + 1, n => ofNat count (n / 256) ++ [UInt8.ofNat n]

/-- The base-256 digits of `n` with no leading zero; zero has no digit. -/
def digits (n : Nat) : Bytes :=
  if n = 0 then [] else digits (n / 256) ++ [UInt8.ofNat n]

/-- The first `count` bytes and what follows them, or nothing if there are
fewer. -/
def split? (count : Nat) (bytes : Bytes) : Option (Bytes × Bytes) :=
  let front := bytes.take count
  if front.length = count then some (front, bytes.drop count) else none

@[simp] theorem length_ofNat (count n : Nat) : (ofNat count n).length = count := by
  induction count generalizing n with
  | zero => rfl
  | succ count ih => simp [ofNat, ih]

@[simp] theorem toNat_nil : toNat [] = 0 := rfl

/-- One more byte shifts the others up by one digit. -/
@[simp] theorem toNat_append_singleton (bytes : Bytes) (b : UInt8) :
    toNat (bytes ++ [b]) = toNat bytes * 256 + b.toNat := by
  simp [toNat, List.foldl_append]

/-- As many bytes as stand in front are cut off. -/
theorem split?_append (front rest : Bytes) :
    split? front.length (front ++ rest) = some (front, rest) := by
  simp [split?]

theorem split?_eq_some {count : Nat} {bytes front rest : Bytes}
    (h : split? count bytes = some (front, rest)) :
    bytes = front ++ rest ∧ front.length = count := by
  simp only [split?] at h
  split at h
  · next hLength =>
      obtain ⟨rfl, rfl⟩ := by simpa using h
      exact ⟨(List.take_append_drop count bytes).symm, hLength⟩
  · simp at h

end Bytes

end NodeStore
