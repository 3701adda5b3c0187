import NodeStore.Bytes

/-!
Lower-case hexadecimal text: two digits a byte, high half first.
-/

namespace NodeStore.Hex

/-- The lower-case hexadecimal digit of a number below sixteen. -/
def digit (n : Nat) : Char :=
  if n < 10 then Char.ofNat (48 + n) else Char.ofNat (87 + n)

/-- The number that a hexadecimal digit of either case stands for. -/
def digit? (c : Char) : Option Nat :=
  if '0' ≤ c ∧ c ≤ '9' then some (c.toNat - 48)
  else if 'a' ≤ c ∧ c ≤ 'f' then some (c.toNat - 87)
  else if 'A' ≤ c ∧ c ≤ 'F' then some (c.toNat - 55)
  else none

def encodeByte (b : UInt8) : List Char :=
  [digit (b.toNat / 16), digit (b.toNat % 16)]

def encodeChars (bytes : Bytes) : List Char :=
  bytes.flatMap encodeByte

def encode (bytes : Bytes) : String :=
  String.ofList (encodeChars bytes)

/-- Reads digits two by two; refuses an odd count and anything but digits. -/
def decodeChars : List Char → Option Bytes
  | [] => some []
  | [_] => none
  | hi :: lo :: rest => do
      let h ← digit? hi
      let l ← digit? lo
      let bytes ← decodeChars rest
      return UInt8.ofNat (h * 16 + l) :: bytes

/-- Reads a text back into bytes, if it is made of pairs of digits. -/
def decode? (text : String) : Option Bytes :=
  decodeChars text.toList

/-- A digit is read as the number that it was written for. -/
theorem digit?_digit {n : Nat} (h : n < 16) : digit? (digit n) = some n := by
  have hAll : ∀ m : Fin 16, digit? (digit m.val) = some m.val := by decide
  exact hAll ⟨n, h⟩

theorem ofNat_halves (b : UInt8) : UInt8.ofNat (b.toNat / 16 * 16 + b.toNat % 16) = b := by
  rw [Nat.div_add_mod', UInt8.ofNat_toNat]

/-- The two digits of a byte are read as the byte, before whatever digits follow. -/
theorem decodeChars_encodeByte (b : UInt8) (rest : List Char) :
    decodeChars (encodeByte b ++ rest) = (decodeChars rest).map (b :: ·) := by
  have hByte := b.toNat_lt
  rw [encodeByte, List.cons_append, List.cons_append, List.nil_append, decodeChars,
    digit?_digit (by omega), digit?_digit (by omega)]
  cases decodeChars rest with
  | none => rfl
  | some bytes => exact congrArg (fun c => some (c :: bytes)) (ofNat_halves b)

theorem decodeChars_encodeChars (bytes : Bytes) : decodeChars (encodeChars bytes) = some bytes := by
  induction bytes with
  | nil => rfl
  | cons b bytes ih =>
    rw [encodeChars, List.flatMap_cons, decodeChars_encodeByte]
    exact congrArg (Option.map (b :: ·)) ih

/-- Every text that was written is read back. -/
theorem decode?_encode (bytes : Bytes) : decode? (encode bytes) = some bytes := by
  rw [decode?, encode, String.toList_ofList]
  exact decodeChars_encodeChars bytes

theorem digit_mem {n : Nat} (h : n < 16) : digit n ∈ "0123456789abcdef".toList := by
  have hAll : ∀ m : Fin 16, digit m.val ∈ "0123456789abcdef".toList := by decide
  exact hAll ⟨n, h⟩

/-- Nothing but lower-case digits is written. -/
theorem mem_of_mem_encode {bytes : Bytes} {c : Char} (h : c ∈ (encode bytes).toList) :
    c ∈ "0123456789abcdef".toList := by
  rw [encode, String.toList_ofList, encodeChars, List.mem_flatMap] at h
  obtain ⟨b, -, hDigit⟩ := h
  have hByte := b.toNat_lt
  rcases List.mem_cons.1 hDigit with rfl | hDigit
  · exact digit_mem (by omega)
  · obtain rfl := List.mem_singleton.1 hDigit
    exact digit_mem (by omega)

/-- A byte takes two characters. -/
theorem length_encode (bytes : Bytes) : (encode bytes).length = 2 * bytes.length := by
  rw [encode, String.length_ofList]
  induction bytes with
  | nil => rfl
  | cons b bytes ih =>
      rw [encodeChars, List.flatMap_cons, List.length_append, ← encodeChars, ih, List.length_cons]
      change 2 + 2 * bytes.length = 2 * (bytes.length + 1)
      omega

theorem encode_append (bytes others : Bytes) : encode (bytes ++ others) = encode bytes ++ encode others := by
  rw [encode, encodeChars, List.flatMap_append, String.ofList_append]
  rfl

end NodeStore.Hex
