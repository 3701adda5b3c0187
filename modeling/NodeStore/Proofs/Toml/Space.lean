import NodeStore.Proofs.Text
import NodeStore.Proofs.Toml.Spelling

/-!
What stands between the words of a plain document is skipped, up to the first
character that does not belong to it.
-/

namespace NodeStore.Toml

/-- Whether a text is at its end or goes on with one of certain characters. -/
def GoesOn (chars : List Char) (rest : List Char) : Prop := ∀ c ∈ rest.head?, c ∈ chars

/-- What may follow the comment of a line. -/
def breaks : List Char := ['\n', '\r']

/-- What may follow a value on its line, the end of the line included. -/
def valueEnds : List Char := ' ' :: '\t' :: '#' :: breaks

/-- Takes the end of a line, if it is not the end of the text. -/
def nextLine (cs : List Char) : Option (List Char) := if cs.isEmpty then some [] else newline cs

/-- What holds of the characters that may come next holds of the one that does. -/
theorem GoesOn.forall {chars rest : List Char} (hRest : GoesOn chars rest) {P : Char → Prop}
    [DecidablePred P] (hChars : chars.all (P ·)) : ∀ c ∈ rest.head?, P c :=
  fun c hHead => of_decide_eq_true (List.all_eq_true.1 hChars c (hRest c hHead))

theorem ne_of_class {p : Char → Bool} {c d : Char} (h : p c) (hOther : p d = false) : c ≠ d := by
  rintro rfl
  rw [hOther] at h
  cases h

/-- Blanks are skipped up to the first character that is none. -/
theorem skipBlanks_append {blanks rest : List Char} (hBlanks : Blanks blanks)
    (hStop : ∀ c ∈ rest.head?, isBlank c = false) : skipBlanks (blanks ++ rest) = rest :=
  Text.dropWhile_append_stop hBlanks hStop

theorem char_self (c : Char) (rest : List Char) : char c (c :: rest) = some rest := if_pos rfl

theorem eq_cons_of_char {c : Char} {cs rest : List Char} (h : char c cs = some rest) :
    cs = c :: rest := by
  cases cs with
  | nil => cases h
  | cons d cs =>
    by_cases hSame : c = d
    · rw [char, if_pos hSame] at h
      rw [hSame, Option.some.inj h]
    · rw [char, if_neg hSame] at h
      cases h

theorem word_eq_none {first c : Char} {letters cs : List Char} (h : first ≠ c) :
    word (first :: letters) (c :: cs) = none := by
  rw [word, char, if_neg h]
  rfl

theorem many_of_eq_none {α : Type} {one : Reader α} {cs : List Char} (h : one cs = none) :
    many one cs = ([], cs) := by
  rw [many, h]

/-- A reader that got on is applied again to what it left. -/
theorem many_of_eq_some {α : Type} {one : Reader α} {cs rest : List Char} {a : α}
    (h : one cs = some (a, rest)) (hShort : rest.length < cs.length) :
    many one cs = (a :: (many one rest).1, (many one rest).2) := by
  rw [many, h]
  exact if_pos hShort

section Blanks

variable {rest : List Char}

/-- Blanks before one of some characters are such a start of a text themselves. -/
theorem Blanks.goesOn {blanks chars : List Char} (h : Blanks blanks) (hRest : GoesOn chars rest) :
    GoesOn (' ' :: '\t' :: chars) (blanks ++ rest) := by
  cases blanks with
  | nil => exact fun c hHead => List.mem_cons_of_mem _ (List.mem_cons_of_mem _ (hRest c hHead))
  | cons c blanks =>
    rintro c ⟨⟩
    have hBlank := h c (List.mem_cons_self ..)
    simp only [isBlank, Bool.or_eq_true, decide_eq_true_eq] at hBlank
    rcases hBlank with rfl | rfl <;> simp

theorem Remark.goesOn {remark : List Char} (h : Remark remark) (hRest : GoesOn breaks rest) :
    GoesOn ('#' :: breaks) (remark ++ rest) := by
  cases h with
  | nothing => exact fun c hHead => List.mem_cons_of_mem _ (hRest c hHead)
  | comment _ =>
    rintro c ⟨⟩
    exact List.mem_cons_self ..

/-- The end of a line is found behind blanks and a comment. -/
theorem lineEnd_of_spelled {blanks remark : List Char} (hBlanks : Blanks blanks)
    (hRemark : Remark remark) (hRest : GoesOn breaks rest) :
    lineEnd (blanks ++ remark ++ rest) = nextLine rest := by
  have hSkip : skipBlanks (blanks ++ (remark ++ rest)) = remark ++ rest :=
    skipBlanks_append hBlanks ((hRemark.goesOn hRest).forall (by decide))
  have hComment : (if (remark ++ rest).head? = some '#' then (remark ++ rest).dropWhile isText
      else remark ++ rest) = rest := by
    cases hRemark with
    | nothing => exact if_neg fun hHash => absurd (hRest '#' hHash) (by decide)
    | @comment body hText =>
      have hBody : ∀ c ∈ '#' :: body, isText c := List.forall_mem_cons.2 ⟨rfl, hText⟩
      exact Text.dropWhile_append_stop hBody (hRest.forall (by decide))
  rw [List.append_assoc, lineEnd]
  simp only [hSkip, hComment]
  rfl

end Blanks

end NodeStore.Toml
