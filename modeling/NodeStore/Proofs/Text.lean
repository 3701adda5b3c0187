import Mathlib

/-!
Texts taken apart: where a run of characters of one class ends, where a number ends,
and which family of openings can be told apart whatever follows them.
-/

namespace NodeStore.Text

/-- At how many places of a text a word stands. -/
def occurrences (word text : String) : Nat :=
  text.toList.tails.countP word.toList.isPrefixOf

/-- No text of a family starts another one. -/
def PrefixFree {ι : Type} (opening : ι → String) : Prop :=
  ∀ i j, (opening i).toList <+: (opening j).toList → i = j

theorem dropWhile_append_stop {p : Char → Bool} {cs rest : List Char} (hAll : ∀ c ∈ cs, p c)
    (hStop : ∀ c ∈ rest.head?, p c = false) : (cs ++ rest).dropWhile p = rest := by
  rw [List.dropWhile_append_of_pos hAll]
  cases rest with
  | nil => rfl
  | cons c rest => exact List.dropWhile_cons_of_neg (by simp [hStop c rfl])

theorem takeWhile_append_stop {p : Char → Bool} {cs rest : List Char} (hAll : ∀ c ∈ cs, p c)
    (hStop : ∀ c ∈ rest.head?, p c = false) : (cs ++ rest).takeWhile p = cs := by
  rw [List.takeWhile_append_of_pos hAll]
  cases rest with
  | nil => simp
  | cons c rest => rw [List.takeWhile_cons_of_neg (by simp [hStop c rfl]), List.append_nil]

theorem isDigit_of_mem_toString {n : Nat} {c : Char} (h : c ∈ (toString n).toList) : c.isDigit := by
  rw [Nat.toString_eq_repr, Nat.toList_repr] at h
  exact Nat.isDigit_of_mem_toDigits (by decide) (by decide) h

/-- A number ends where a text goes on that does not start with a digit. -/
theorem number_append_inj {m n : Nat} {border s t : String}
    (hBorder : ∃ stop, border.toList.head? = some stop ∧ stop.isDigit = false)
    (h : toString m ++ border ++ s = toString n ++ border ++ t) : m = n ∧ s = t := by
  obtain ⟨stop, hHead, hStop⟩ := hBorder
  have hDigits (k : Nat) (u : String) :
      ((toString k).toList ++ (border ++ u).toList).takeWhile Char.isDigit =
        (toString k).toList := by
    refine takeWhile_append_stop (fun c => isDigit_of_mem_toString) fun c hFirst => ?_
    rw [String.toList_append, List.head?_append, hHead] at hFirst
    obtain rfl := Option.some.inj hFirst
    exact hStop
  rw [String.append_assoc, String.append_assoc] at h
  have hNumber : (toString m).toList = (toString n).toList := by
    rw [← hDigits m s, ← hDigits n t, ← String.toList_append, ← String.toList_append, h]
  obtain rfl := Nat.repr_injective (String.toList_inj.1 hNumber)
  exact ⟨rfl, (String.append_right_inj border).1 ((String.append_right_inj _).1 h)⟩

theorem PrefixFree.append_inj {ι : Type} {opening : ι → String} (hFree : PrefixFree opening)
    {i j : ι} {s t : String} (h : opening i ++ s = opening j ++ t) : i = j ∧ s = t := by
  have hChars : (opening i).toList ++ s.toList = (opening j).toList ++ t.toList := by
    rw [← String.toList_append, ← String.toList_append, h]
  have hLeft : (opening i).toList <+: (opening j).toList ++ t.toList := by
    rw [← hChars]
    exact List.prefix_append ..
  have hSame : i = j := by
    rcases List.prefix_or_prefix_of_prefix hLeft (List.prefix_append ..) with hStart | hStart
    · exact hFree i j hStart
    · exact (hFree j i hStart).symm
  subst hSame
  exact ⟨rfl, (String.append_right_inj (opening i)).1 h⟩

/-- Where the text between two fields stands once more next to it, it may be taken for
the border at either place. -/
theorem border_moves (first between last border : String) :
    first ++ border ++ between ++ border ++ last =
      first ++ border ++ (between ++ border ++ last) := by
  simp only [String.append_assoc]

section Occurrences

variable {word : String} {c : Char} {rest : List Char}

/-- No occurrence of a word starts in a text that lacks its first character. -/
theorem occurrences_append_of_notMem {front : String} (hWord : word.toList = c :: rest)
    (hFront : c ∉ front.toList) (text : String) :
    occurrences word (front ++ text) = occurrences word text := by
  rw [occurrences, occurrences, String.toList_append]
  generalize front.toList = before at hFront
  induction before with
  | nil => rfl
  | cons b before ih =>
      rw [List.mem_cons, not_or] at hFront
      rw [List.cons_append, List.tails_cons, List.countP_cons_of_neg, ih hFront.2]
      simp [hWord, hFront.1]

/-- A word whose first character does not come again in it is found once more before
a text, at the start and nowhere across the border. -/
theorem occurrences_append_self (hWord : word.toList = c :: rest) (hRest : c ∉ rest)
    (text : String) : occurrences word (word ++ text) = occurrences word text + 1 := by
  have hTail : occurrences word (String.ofList rest ++ text) = occurrences word text :=
    occurrences_append_of_notMem hWord (by rwa [String.toList_ofList]) text
  have hStart : word.toList.isPrefixOf (c :: (rest ++ text.toList)) := by
    rw [hWord, List.isPrefixOf_iff_prefix]
    exact List.prefix_append (c :: rest) text.toList
  rw [← hTail, occurrences, occurrences, String.toList_append, String.toList_append,
    String.toList_ofList, hWord, List.cons_append, List.tails_cons, ← hWord,
    List.countP_cons_of_pos hStart]

end Occurrences

end NodeStore.Text
