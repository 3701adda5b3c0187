import Mathlib
import NodeStore.Bytes

/-!
Numbers and the bytes that spell them: spelling and reading undo each other, the
number of bytes bounds the number, and bytes of one length are ordered like their
numbers.
-/

namespace NodeStore.Bytes

/-- Spelled in a fixed number of bytes, a number keeps what fits into them. -/
theorem toNat_ofNat (count n : Nat) : toNat (ofNat count n) = n % 256 ^ count := by
  induction count generalizing n with
  | zero => rw [Nat.pow_zero, Nat.mod_one]; rfl
  | succ count ih =>
    rw [ofNat, toNat_append_singleton, ih, Nat.pow_succ', Nat.mod_mul, UInt8.toNat_ofNat']
    omega

/-- Bytes spell a number below the power of 256 that their count gives. -/
theorem toNat_lt (bytes : Bytes) : toNat bytes < 256 ^ bytes.length := by
  induction bytes using List.reverseRecOn with
  | nil => exact Nat.one_pos
  | append_singleton front last ih =>
      have hLast := last.toNat_lt
      rw [toNat_append_singleton, List.length_append, List.length_singleton, Nat.pow_succ]
      omega

/-- A number is shifted up by one digit for each byte that comes behind it. -/
theorem toNat_append (front rest : Bytes) :
    toNat (front ++ rest) = toNat front * 256 ^ rest.length + toNat rest := by
  induction rest using List.reverseRecOn with
  | nil => simp
  | append_singleton rest last ih =>
      rw [← List.append_assoc, toNat_append_singleton, toNat_append_singleton, ih,
        List.length_append, List.length_singleton, Nat.pow_succ]
      ring

theorem toNat_cons (first : UInt8) (rest : Bytes) :
    toNat (first :: rest) = first.toNat * 256 ^ rest.length + toNat rest := by
  have hFirst : toNat [first] = first.toNat := by simp [toNat]
  rw [← hFirst, ← toNat_append, List.singleton_append]

theorem toNat_replicate_zero (count : Nat) : toNat (List.replicate count 0) = 0 := by
  induction count with
  | zero => rfl
  | succ count ih => rw [List.replicate_succ', toNat_append_singleton, ih]; rfl

/-- Of numbers in two digits the leading digits decide, and the others where those
agree. -/
theorem compare_mul_add {base x y : Nat} (m n : Nat) (hX : x < base) (hY : y < base) :
    compare (m * base + x) (n * base + y) = (compare m n).then (compare x y) := by
  have hBelow {m n x : Nat} (y : Nat) (hX : x < base) (hLess : m < n) :
      m * base + x < n * base + y := by
    have hStep : (m + 1) * base ≤ n * base := Nat.mul_le_mul_right base hLess
    rw [Nat.succ_mul] at hStep
    omega
  rcases lt_trichotomy m n with hLt | rfl | hGt
  · rw [Nat.compare_eq_lt.2 hLt, Nat.compare_eq_lt.2 (hBelow y hX hLt)]
    rfl
  · rw [Nat.compare_eq_eq.2 rfl, Ordering.eq_then]
    rcases lt_trichotomy x y with hLt | rfl | hGt
    · rw [Nat.compare_eq_lt.2 hLt, Nat.compare_eq_lt]
      omega
    · rw [Nat.compare_eq_eq.2 rfl, Nat.compare_eq_eq.2 rfl]
    · rw [Nat.compare_eq_gt.2 hGt, Nat.compare_eq_gt]
      omega
  · rw [Nat.compare_eq_gt.2 hGt, Nat.compare_eq_gt.2 (hBelow x hY hGt)]
    rfl

/-- Bytes of one length are ordered like their numbers. -/
theorem compare_toNat {as bs : Bytes} (h : as.length = bs.length) :
    compare (toNat as) (toNat bs) = compare as bs := by
  induction as generalizing bs with
  | nil =>
      obtain rfl := List.eq_nil_of_length_eq_zero h.symm
      rfl
  | cons a as ih =>
      cases bs with
      | nil => cases h
      | cons b bs =>
          have hLength : as.length = bs.length := Nat.succ.inj h
          have hB : toNat bs < 256 ^ as.length := hLength ▸ toNat_lt bs
          rw [toNat_cons, toNat_cons, ← hLength, compare_mul_add _ _ (toNat_lt as) hB,
            ih hLength, List.compare_cons_cons, UInt8.compare_eq_toNat_compare_toNat]

theorem digits_zero : digits 0 = [] := by
  rw [digits, if_pos rfl]

theorem digits_of_ne_zero {n : Nat} (h : n ≠ 0) :
    digits n = digits (n / 256) ++ [UInt8.ofNat n] := by
  rw [digits, if_neg h]

/-- The shortest spelling of a number is read back as the number. -/
theorem toNat_digits (n : Nat) : toNat (digits n) = n := by
  fun_induction digits n with
  | case1 => rfl
  | case2 n hPos ih =>
      rw [toNat_append_singleton, ih, UInt8.toNat_ofNat']
      omega

theorem ofNat_ne_zero {n : Nat} (hPos : n ≠ 0) (hSmall : n < 256) : UInt8.ofNat n ≠ 0 := by
  intro h
  have hNat : (UInt8.ofNat n).toNat = 0 := by rw [h]; rfl
  rw [UInt8.toNat_ofNat'] at hNat
  omega

/-- A number is spelled without a leading zero. -/
theorem head?_digits (n : Nat) : (digits n).head? ≠ some 0 := by
  fun_induction digits n with
  | case1 => simp
  | case2 n hPos ih =>
      by_cases hSmall : n / 256 = 0
      · rw [hSmall, digits_zero]
        have hLast : UInt8.ofNat n ≠ 0 := ofNat_ne_zero hPos (by omega)
        simpa using hLast
      · intro hLead
        rw [List.head?_append, Option.or_eq_some_iff] at hLead
        rcases hLead with hLead | ⟨hNone, -⟩
        · exact ih hLead
        · simp [digits_of_ne_zero hSmall] at hNone

/-- One more byte is one more digit, unless it would lead as a zero. -/
theorem digits_mul_add {n : Nat} {b : UInt8} (h : ¬(n = 0 ∧ b = 0)) :
    digits (n * 256 + b.toNat) = digits n ++ [b] := by
  have hByte := b.toNat_lt
  have hPos : n * 256 + b.toNat ≠ 0 := by
    intro hZero
    have hNat : b.toNat = 0 := by omega
    exact h ⟨by omega, UInt8.toNat.inj hNat⟩
  have hQuotient : (n * 256 + b.toNat) / 256 = n := by omega
  have hDigit : UInt8.ofNat (n * 256 + b.toNat) = b := by
    apply UInt8.toNat.inj
    rw [UInt8.toNat_ofNat']
    omega
  rw [digits_of_ne_zero hPos, hQuotient, hDigit]

/-- Bytes without a leading zero are the spelling of their number. -/
theorem digits_toNat {bytes : Bytes} (h : bytes.head? ≠ some 0) : digits (toNat bytes) = bytes := by
  induction bytes using List.reverseRecOn with
  | nil => exact digits_zero
  | append_singleton front last ih =>
      have hFront : digits (toNat front) = front := by
        apply ih
        intro hLead
        rw [List.head?_append, hLead] at h
        exact h rfl
      have hLast : ¬(toNat front = 0 ∧ last = 0) := by
        rintro ⟨hZero, rfl⟩
        rw [hZero, digits_zero] at hFront
        rw [← hFront] at h
        exact h rfl
      rw [toNat_append_singleton, digits_mul_add hLast, hFront]

/-- A larger number has no fewer digits. -/
theorem length_digits_mono {m n : Nat} (h : m ≤ n) : (digits m).length ≤ (digits n).length := by
  fun_induction digits m generalizing n with
  | case1 => simp
  | case2 m hPos ih =>
      have hN : n ≠ 0 := by omega
      rw [digits_of_ne_zero hN, List.length_append, List.length_append]
      exact Nat.add_le_add_right (ih (Nat.div_le_div_right h)) 1

/-- A number that fits into a count of bytes has at most so many digits. -/
theorem length_digits_le {count n : Nat} (h : n < 256 ^ count) : (digits n).length ≤ count := by
  induction count generalizing n with
  | zero =>
      obtain rfl : n = 0 := by simpa using h
      simp [digits_zero]
  | succ count ih =>
      by_cases hZero : n = 0
      · simp [hZero, digits_zero]
      · rw [digits_of_ne_zero hZero, List.length_append, List.length_singleton]
        apply Nat.succ_le_succ
        apply ih
        rw [Nat.pow_succ] at h
        omega

end NodeStore.Bytes
