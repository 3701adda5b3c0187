import Mathlib
import NodeStore.Key
import NodeStore.Proofs.Bytes
import NodeStore.Proofs.Source.Table

/-!
The order of keys, the texts that show them, and maps over them. A byte is shown by
two digits whose codes ascend with what they stand for, and the parenthesis behind a
key lies below all digits, so texts are ordered as keys are. Main statement: order,
equality, both texts and lookup by bytes all see the same of a key, its content.
-/

namespace NodeStore

namespace Hex

theorem toNat_digit {n : Nat} (h : n < 16) :
    (digit n).toNat = if n < 10 then 48 + n else 87 + n := by
  have hAll : ∀ m : Fin 16,
      (digit m.val).toNat = if m.val < 10 then 48 + m.val else 87 + m.val := by decide
  exact hAll ⟨n, h⟩

/-- Digits stand in the order of what they stand for, nine before a. -/
theorem compare_digit {m n : Nat} (hm : m < 16) (hn : n < 16) :
    compare (digit m).toNat (digit n).toNat = compare m n := by
  rw [toNat_digit hm, toNat_digit hn]
  rcases lt_trichotomy m n with hLt | rfl | hGt
  · rw [Nat.compare_eq_lt.2 hLt, Nat.compare_eq_lt]
    split <;> split <;> omega
  · rw [Nat.compare_eq_eq.2 (rfl : m = m), Nat.compare_eq_eq]
  · rw [Nat.compare_eq_gt.2 hGt, Nat.compare_eq_gt]
    split <;> split <;> omega

/-- Every byte takes two digits, so digits that are compared stand for the same half of
bytes at the same place. -/
theorem compare_encodeChars (as bs : Bytes) :
    compare ((encodeChars as).map Char.toNat) ((encodeChars bs).map Char.toNat) =
      compare as bs := by
  induction as generalizing bs with
  | nil => cases bs <;> rfl
  | cons a as ih =>
      cases bs with
      | nil => rfl
      | cons b bs =>
          have hA := a.toNat_lt
          have hB := b.toNat_lt
          rw [encodeChars, encodeChars, List.flatMap_cons, List.flatMap_cons, ← encodeChars,
            ← encodeChars, encodeByte, encodeByte]
          simp only [List.cons_append, List.nil_append, List.map_cons, List.compare_cons_cons]
          have hLowA : a.toNat % 16 < 16 := Nat.mod_lt _ (by decide)
          have hLowB : b.toNat % 16 < 16 := Nat.mod_lt _ (by decide)
          rw [ih bs, compare_digit (by omega) (by omega), compare_digit hLowA hLowB,
            ← Ordering.then_assoc, ← Bytes.compare_mul_add _ _ hLowA hLowB, Nat.div_add_mod',
            Nat.div_add_mod', UInt8.compare_eq_toNat_compare_toNat]

end Hex

namespace Key

/-- One byte string comes before another if it is a proper prefix of it, or has the
smaller byte where the two first differ. -/
def Precedes (as bs : Bytes) : Prop :=
  (∃ b rest, bs = as ++ b :: rest) ∨
  ∃ front a b as' bs', as = front ++ a :: as' ∧ bs = front ++ b :: bs' ∧ a < b

/-- The character codes of a text. -/
def codes (text : String) : List Nat := text.toList.map Char.toNat

/-- The positions at which a list has a key with the given content. -/
def positions (keys : List Key) (content : Bytes) : Set Nat :=
  {i | keys[i]?.map Key.bytes = some content}

instance : Std.TransOrd Key :=
  inferInstanceAs (Std.TransCmp (compareOn Key.bytes))

/-- Keys with their positions, put one by one into a map that compares keys. -/
def ordered (keys : List Key) : Std.TreeMap Key Nat :=
  keys.zipIdx.foldl (fun map pair => map.insert pair.1 pair.2) ∅

section Order

theorem eq_iff_bytes_eq {a b : Key} : a = b ↔ a.bytes = b.bytes := by
  rcases a with ⟨as⟩
  rcases b with ⟨bs⟩
  rw [Key.mk.injEq]

theorem compare_eq_eq_iff {a b : Key} : compare a b = .eq ↔ a.bytes = b.bytes := by
  change compare a.bytes b.bytes = .eq ↔ a.bytes = b.bytes
  exact Std.LawfulEqOrd.compare_eq_iff_eq

theorem precedes_cons_iff {a b : UInt8} {as bs : Bytes} :
    Precedes (a :: as) (b :: bs) ↔ a < b ∨ a = b ∧ Precedes as bs := by
  constructor
  · rintro (⟨x, rest, hBytes⟩ | ⟨front, x, y, as', bs', hAs, hBs, hLess⟩)
    · obtain ⟨rfl, rfl⟩ := List.cons.inj hBytes
      exact .inr ⟨rfl, .inl ⟨x, rest, rfl⟩⟩
    · cases front with
      | nil =>
          obtain ⟨rfl, -⟩ := List.cons.inj hAs
          obtain ⟨rfl, -⟩ := List.cons.inj hBs
          exact .inl hLess
      | cons c front =>
          obtain ⟨rfl, rfl⟩ := List.cons.inj hAs
          obtain ⟨rfl, rfl⟩ := List.cons.inj hBs
          exact .inr ⟨rfl, .inr ⟨front, x, y, as', bs', rfl, rfl, hLess⟩⟩
  · rintro (hLess | ⟨rfl, ⟨x, rest, rfl⟩ | ⟨front, x, y, as', bs', rfl, rfl, hLess⟩⟩)
    · exact .inr ⟨[], a, b, as, bs, rfl, rfl, hLess⟩
    · exact .inl ⟨x, rest, rfl⟩
    · exact .inr ⟨a :: front, x, y, as', bs', rfl, rfl, hLess⟩

/-- The order on byte strings is the one by the first byte in which they differ. -/
theorem compare_eq_lt_iff {as bs : Bytes} : compare as bs = .lt ↔ Precedes as bs := by
  induction as generalizing bs with
  | nil =>
      cases bs with
      | nil => exact iff_of_false nofun (by simp [Precedes])
      | cons b bs => exact iff_of_true rfl (.inl ⟨b, bs, rfl⟩)
  | cons a as ih =>
      cases bs with
      | nil => exact iff_of_false nofun (by simp [Precedes])
      | cons b bs =>
          rw [List.compare_cons_cons, Ordering.then_eq_lt, Std.compare_eq_lt,
            Std.LawfulEqOrd.compare_eq_iff_eq, ih, precedes_cons_iff]

end Order

section Text

theorem codes_append (first second : String) :
    codes (first ++ second) = codes first ++ codes second := by
  rw [codes, String.toList_append, List.map_append]
  rfl

/-- Keys in hex are ordered, character by character, like the keys. -/
theorem compare_codes_render (a b : Key) :
    compare (codes a.render) (codes b.render) = compare a b := by
  rw [codes, codes, render, render, Hex.encode, Hex.encode, String.toList_ofList,
    String.toList_ofList]
  exact Hex.compare_encodeChars a.bytes b.bytes

/-- Keys have one hex text if and only if they have the same bytes. -/
theorem render_eq_iff {a b : Key} : a.render = b.render ↔ a.bytes = b.bytes := by
  constructor
  · intro hText
    have hBytes := congrArg Hex.decode? hText
    rw [render, render, Hex.decode?_encode, Hex.decode?_encode] at hBytes
    exact Option.some.inj hBytes
  · intro hBytes
    rw [render, render, hBytes]

/-- A front that two lists have in common does not matter to their order. -/
theorem compare_append_left (front as bs : List Nat) :
    compare (front ++ as) (front ++ bs) = compare as bs := by
  induction front with
  | nil => rfl
  | cons n front ih =>
      rw [List.cons_append, List.cons_append, List.compare_cons_cons, ih, Nat.compare_eq_eq.2 rfl,
        Ordering.eq_then]

/-- A closing sign that lies below all that stands before it keeps the order, since
an end is below everything too. -/
theorem compare_append_closing {closing : Nat} {as bs : List Nat} (hAs : ∀ a ∈ as, closing < a)
    (hBs : ∀ b ∈ bs, closing < b) :
    compare (as ++ [closing]) (bs ++ [closing]) = compare as bs := by
  induction as generalizing bs with
  | nil =>
      cases bs with
      | nil => exact Std.ReflOrd.compare_self
      | cons b bs =>
          rw [List.nil_append, List.cons_append, List.compare_cons_cons,
            Nat.compare_eq_lt.2 (hBs b (List.mem_cons_self ..))]
          rfl
  | cons a as ih =>
      cases bs with
      | nil =>
          rw [List.nil_append, List.cons_append, List.compare_cons_cons,
            Nat.compare_eq_gt.2 (hAs a (List.mem_cons_self ..))]
          rfl
      | cons b bs =>
          rw [List.cons_append, List.cons_append, List.compare_cons_cons, List.compare_cons_cons,
            ih (fun n hn => hAs n (List.mem_cons_of_mem a hn))
              (fun n hn => hBs n (List.mem_cons_of_mem b hn))]

/-- The code of the closing parenthesis lies below those of all digits. -/
theorem closing_lt_of_mem_codes (key : Key) {code : Nat} (h : code ∈ codes key.render) :
    41 < code := by
  obtain ⟨c, hChar, rfl⟩ := List.mem_map.1 h
  have hDigits : ∀ c ∈ "0123456789abcdef".toList, 41 < c.toNat := by simp
  exact hDigits c (Hex.mem_of_mem_encode hChar)

/-- The same for the longer text that names the type. -/
theorem compare_codes_inspect (a b : Key) :
    compare (codes a.inspect) (codes b.inspect) = compare a b := by
  have hClosing : codes ")" = [41] := by decide
  rw [inspect, inspect, codes_append, codes_append, codes_append, codes_append, hClosing,
    List.append_assoc, List.append_assoc, compare_append_left,
    compare_append_closing (fun _ => closing_lt_of_mem_codes a)
      (fun _ => closing_lt_of_mem_codes b), compare_codes_render]

end Text

section Lookup

theorem mem_positions_iff {keys : List Key} {content : Bytes} {i : Nat} :
    i ∈ positions keys content ↔ ∃ key, keys[i]? = some key ∧ key.bytes = content :=
  Option.map_eq_some_iff

theorem lt_length_of_mem_positions {keys : List Key} {content : Bytes} {i : Nat}
    (h : i ∈ positions keys content) : i < keys.length := by
  obtain ⟨key, hKey, -⟩ := mem_positions_iff.1 h
  exact (List.getElem?_eq_some_iff.1 hKey).1

theorem positions_eq_empty_iff {keys : List Key} {content : Bytes} :
    positions keys content = ∅ ↔ content ∉ keys.map Key.bytes := by
  rw [Set.eq_empty_iff_forall_notMem, ← not_exists, not_iff_not, List.mem_map]
  constructor
  · rintro ⟨i, hPosition⟩
    obtain ⟨key, hKey, hContent⟩ := mem_positions_iff.1 hPosition
    exact ⟨key, List.mem_of_getElem? hKey, hContent⟩
  · rintro ⟨key, hMem, hContent⟩
    obtain ⟨i, hKey⟩ := List.getElem?_of_mem hMem
    exact ⟨i, mem_positions_iff.2 ⟨key, hKey, hContent⟩⟩

/-- A key that is added at the end is at one more position, if its content is the one
looked for. -/
theorem positions_concat (keys : List Key) (key : Key) (content : Bytes) :
    positions (keys ++ [key]) content =
      if key.bytes = content then insert keys.length (positions keys content)
      else positions keys content := by
  ext i
  have hLast : i ∈ positions (keys ++ [key]) content ↔
      (i = keys.length ∧ key.bytes = content) ∨ i ∈ positions keys content := by
    -- before the new key, at it, and beyond all keys
    rcases lt_trichotomy i keys.length with hLt | rfl | hGt
    · rw [positions, Set.mem_ofPred_eq, List.getElem?_append_left hLt]
      exact (or_iff_right fun hEq => hLt.ne hEq.1).symm
    · rw [positions, Set.mem_ofPred_eq, List.getElem?_concat_length]
      have hNot : keys.length ∉ positions keys content :=
        fun h => (lt_length_of_mem_positions h).ne rfl
      rw [or_iff_left hNot]
      simp
    · refine iff_of_false (fun h => ?_) ?_
      · have hLength := lt_length_of_mem_positions h
        rw [List.length_append, List.length_singleton] at hLength
        omega
      · rintro (⟨rfl, -⟩ | h)
        · exact hGt.ne rfl
        · exact absurd (lt_length_of_mem_positions h) hGt.not_gt
  rw [hLast]
  split <;> simp_all

/-- If each key that is put in is found at its position from then on, where it has
the content looked for, then the latest such position is found. -/
theorem latest_of_concat (found : List Key → Option Nat) {content : Bytes}
    (hEmpty : found [] = none)
    (hConcat : ∀ keys key, found (keys ++ [key]) =
      if key.bytes = content then some keys.length else found keys) (keys : List Key) :
    (∀ i, found keys = some i ↔ IsGreatest (positions keys content) i) ∧
    (found keys = none ↔ content ∉ keys.map Key.bytes) := by
  induction keys using List.reverseRecOn with
  | nil =>
      have hNone : positions [] content = ∅ := positions_eq_empty_iff.2 List.not_mem_nil
      rw [hEmpty, hNone]
      exact ⟨fun i => iff_of_false nofun fun h => h.1, iff_of_true rfl List.not_mem_nil⟩
  | append_singleton keys key ih =>
      rw [hConcat, positions_concat, List.map_append, List.map_singleton, List.mem_append,
        List.mem_singleton]
      split
      · next hContent =>
          have hGreatest : IsGreatest (insert keys.length (positions keys content)) keys.length :=
            ⟨Set.mem_insert .., by
              rintro i (rfl | hPosition)
              · exact le_rfl
              · exact (lt_length_of_mem_positions hPosition).le⟩
          refine ⟨fun i => ⟨?_, fun h => congrArg some (hGreatest.unique h)⟩, ?_⟩
          · rintro ⟨⟩
            exact hGreatest
          · exact iff_of_false nofun fun h => h (.inr hContent.symm)
      · next hContent =>
          rw [or_iff_left (Ne.symm hContent)]
          exact ih

/-- What grows by one with each new content counts the contents. -/
theorem card_of_concat (size : List Key → Nat) (hEmpty : size [] = 0)
    (hConcat : ∀ keys key, size (keys ++ [key]) =
      if key.bytes ∈ keys.map Key.bytes then size keys else size keys + 1) (keys : List Key) :
    size keys = (keys.map Key.bytes).toFinset.card := by
  induction keys using List.reverseRecOn with
  | nil => exact hEmpty
  | append_singleton keys key ih =>
      rw [hConcat, List.map_append, List.map_singleton, List.toFinset_append, List.toFinset_cons,
        List.toFinset_nil, Finset.union_insert, Finset.union_empty]
      split
      · next hMem => rw [Finset.insert_eq_of_mem (List.mem_toFinset.2 hMem), ih]
      · next hMem =>
          rw [Finset.card_insert_of_notMem fun h => hMem (List.mem_toFinset.1 h), ih]

/-- A key is found by its bytes as it is found by itself. -/
theorem getBy?_eq {υ : Type} (hasher : Bytes → UInt64) (content : Bytes) (table : Table Key υ) :
    table.getBy? (Key.hash hasher) Key.bytes (hasher content) content = table.get? ⟨content⟩ := by
  rcases table with ⟨records⟩
  rw [Table.getBy?, Table.get?]
  induction records with
  | nil => rfl
  | cons record records ih =>
      rcases record with ⟨⟨bytes⟩, value⟩
      by_cases hBytes : bytes = content
      · subst hBytes
        rw [List.find?_cons_of_pos (by simp [Key.hash]), List.lookup_cons_self]
        rfl
      · rw [List.find?_cons_of_neg (by simp [hBytes]), Records.lookup_cons_ne, ih]
        exact fun h => hBytes (Key.mk.inj h).symm

theorem ofList_concat (keys : List Key) (key : Key) :
    Table.ofList (keys ++ [key]).zipIdx = (Table.ofList keys.zipIdx).insert key keys.length := by
  rw [Table.ofList, Table.insertMany, List.zipIdx_append, List.foldl_append]
  simp [Table.ofList, Table.insertMany]

theorem ordered_concat (keys : List Key) (key : Key) :
    ordered (keys ++ [key]) = (ordered keys).insert key keys.length := by
  rw [ordered, List.zipIdx_append, List.foldl_append]
  simp [ordered]

/-- Of equal keys put into a table, the latest one is found. -/
theorem get?_ofList (keys : List Key) (content : Bytes) :
    (∀ i, (Table.ofList keys.zipIdx).get? ⟨content⟩ = some i ↔
      IsGreatest (positions keys content) i) ∧
    ((Table.ofList keys.zipIdx).get? ⟨content⟩ = none ↔ content ∉ keys.map Key.bytes) := by
  refine latest_of_concat (fun keys => (Table.ofList keys.zipIdx).get? ⟨content⟩) rfl
    (fun keys key => ?_) keys
  rw [ofList_concat, Table.get?_insert]
  simp only [eq_iff_bytes_eq, eq_comm]

/-- A table has as many entries as there are contents among the keys. -/
theorem size_ofList (keys : List Key) :
    (Table.ofList keys.zipIdx).size = (keys.map Key.bytes).toFinset.card := by
  refine card_of_concat (fun keys => (Table.ofList keys.zipIdx).size) rfl
    (fun keys key => ?_) keys
  have hKnown : ((Table.ofList keys.zipIdx).get? key).isSome ↔ key.bytes ∈ keys.map Key.bytes := by
    rw [Option.isSome_iff_ne_none, ne_eq, not_iff_comm]
    exact (get?_ofList keys key.bytes).2.symm
  rw [ofList_concat, Table.size_insert]
  simp only [hKnown]

/-- In a map that compares keys the latest one is found as well. -/
theorem getElem?_ordered (keys : List Key) (content : Bytes) :
    (∀ i, (ordered keys)[(⟨content⟩ : Key)]? = some i ↔ IsGreatest (positions keys content) i) ∧
    ((ordered keys)[(⟨content⟩ : Key)]? = none ↔ content ∉ keys.map Key.bytes) := by
  refine latest_of_concat (fun keys => (ordered keys)[(⟨content⟩ : Key)]?)
    Std.TreeMap.getElem?_emptyc (fun keys key => ?_) keys
  rw [ordered_concat, Std.TreeMap.getElem?_insert]
  simp only [compare_eq_eq_iff]

theorem size_ordered (keys : List Key) :
    (ordered keys).size = (keys.map Key.bytes).toFinset.card := by
  refine card_of_concat (fun keys => (ordered keys).size) Std.TreeMap.size_emptyc
    (fun keys key => ?_) keys
  have hKnown : (ordered keys).contains key ↔ key.bytes ∈ keys.map Key.bytes := by
    rw [← Std.TreeMap.mem_iff_contains, Std.TreeMap.mem_iff_isSome_getElem?,
      Option.isSome_iff_ne_none, ne_eq, not_iff_comm]
    exact (getElem?_ordered keys key.bytes).2.symm
  rw [ordered_concat, Std.TreeMap.size_insert]
  simp only [hKnown]

end Lookup

/-- A key is its content. Keys are in total order, byte by byte and a proper prefix
first, which is also the order of the codes of either text that shows them; and keys
are equal, in this order or as such, exactly if their content and so their text is
the same. Of keys that are put into a map with their positions, the latest one with
some content is found by that content, however it is hashed, or by comparison, and
the map is as large as there are contents. -/
theorem order_and_lookup_follow_content (hasher : Bytes → UInt64) (keys : List Key)
    (content : Bytes) :
    let hashed := Table.ofList keys.zipIdx
    let found := hashed.getBy? (Key.hash hasher) Key.bytes (hasher content) content
    (∀ a b : Key, compare a b = (compare b a).swap) ∧
    (∀ a b c : Key, (compare a b).isLE → (compare b c).isLE → (compare a c).isLE) ∧
    (∀ a b : Key, compare a b = .lt ↔ Precedes a.bytes b.bytes) ∧
    (∀ a b : Key, compare a b = .eq ↔ a.bytes = b.bytes) ∧
    (∀ a b : Key, a = b ↔ a.bytes = b.bytes) ∧
    (∀ a b : Key, a.render = b.render ↔ a.bytes = b.bytes) ∧
    (∀ a b : Key, compare (codes a.render) (codes b.render) = compare a b) ∧
    (∀ a b : Key, compare (codes a.inspect) (codes b.inspect) = compare a b) ∧
    (∀ i, found = some i ↔ IsGreatest (positions keys content) i) ∧
    (found = none ↔ content ∉ keys.map Key.bytes) ∧
    hashed.size = (keys.map Key.bytes).toFinset.card ∧
    (ordered keys)[(⟨content⟩ : Key)]? = found ∧
    (ordered keys).size = hashed.size := by
  intro hashed found
  have hFound : found = hashed.get? ⟨content⟩ := getBy?_eq hasher content hashed
  obtain ⟨hLatest, hNone⟩ := get?_ofList keys content
  refine ⟨fun a b => Std.OrientedOrd.eq_swap, fun a b c => Std.TransOrd.isLE_trans,
    fun a b => compare_eq_lt_iff, fun a b => compare_eq_eq_iff, fun a b => eq_iff_bytes_eq,
    fun a b => render_eq_iff, compare_codes_render, compare_codes_inspect, ?_, ?_,
    size_ofList keys, ?_, ?_⟩
  · rw [hFound]
    exact hLatest
  · rw [hFound]
    exact hNone
  · rw [hFound]
    exact Option.ext fun i => ((getElem?_ordered keys content).1 i).trans (hLatest i).symm
  · rw [size_ordered, size_ofList]

/-- Two equal keys, the later of which is found, and one that is a prefix of them. -/
theorem order_and_lookup_follow_content_repeated :
    let keys : List Key := [⟨[1]⟩, ⟨[]⟩, ⟨[1]⟩]
    let hashed := Table.ofList keys.zipIdx
    hashed.getBy? (Key.hash fun _ => 0) Key.bytes 0 [1] = some 2 ∧ hashed.size = 2 ∧
      compare (codes (inspect ⟨[]⟩)) (codes (inspect ⟨[1]⟩)) = .lt ∧
      (compare (⟨[]⟩ : Key) ⟨[2]⟩).isLE := by
  intro keys hashed
  obtain ⟨-, hTrans, hPrefix, -, -, -, -, hText, hLatest, -, hSize, -⟩ :=
    order_and_lookup_follow_content (fun _ => 0) keys [1]
  have hGreatest : IsGreatest (positions keys [1]) 2 :=
    ⟨rfl, fun i h => Nat.le_of_lt_succ (lt_length_of_mem_positions h)⟩
  refine ⟨(hLatest 2).2 hGreatest, hSize, ?_, hTrans ⟨[]⟩ ⟨[1]⟩ ⟨[2]⟩ (by decide) (by decide)⟩
  rw [hText]
  exact (hPrefix ⟨[]⟩ ⟨[1]⟩).2 (.inl ⟨1, [], rfl⟩)

end Key

end NodeStore
