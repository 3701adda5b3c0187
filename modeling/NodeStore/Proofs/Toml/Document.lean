import NodeStore.Proofs.Toml.Quoted

/-!
Values, lines and documents are read as what they spell. Main statement: the
statements of a plain document are defined, in their order, whatever stands
around them.
-/

namespace NodeStore.Toml

section Values

variable {text rest : List Char}

/-- An integer is read as one: it is no text, no truth value, no date and no float. -/
theorem scalar_of_integer {n : Int} (h : SpellsInteger text n) (hLow : -2 ^ 63 ≤ n)
    (hHigh : n < 2 ^ 63) (hRest : GoesOn valueEnds rest) :
    scalar (text ++ rest) = some (.integer n, rest) := by
  have hInteger := integer_of_spelled h hLow hHigh hRest
  have hFloat := float_of_spelled h hRest
  have hDateTime := dateTime_of_spelled h hRest
  obtain ⟨c, tail, rfl, hNe⟩ := h.eq_cons
  have hString : string (c :: tail ++ rest) = none :=
    string_eq_none (hNe '"' (by decide)) (hNe '\'' (by decide))
  have hTrue : word ['t', 'r', 'u', 'e'] (c :: tail ++ rest) = none :=
    word_eq_none (hNe 't' (by decide)).symm
  have hFalse : word ['f', 'a', 'l', 's', 'e'] (c :: tail ++ rest) = none :=
    word_eq_none (hNe 'f' (by decide)).symm
  rw [scalar, hString, hTrue, hFalse, hDateTime, hFloat, hInteger]
  rfl

/-- A value is read as what it spells, up to a character that may stand behind a value. -/
theorem scalar_of_spelled {v : Value} (h : SpellsValue text v) (hRest : GoesOn valueEnds rest) :
    scalar (text ++ rest) = some (v, rest) := by
  cases h with
  | yes => rfl
  | no => rfl
  | string hString =>
    have hStop : rest.head? ≠ some '"' := fun hQuote => absurd (hRest '"' hQuote) (by decide)
    rw [scalar, string_of_spelled hString hStop]
    rfl
  | integer hInteger hLow hHigh => exact scalar_of_integer hInteger hLow hHigh hRest

end Values

section Lines

variable {text rest : List Char} {s : Statement}

/-- A value that is no array and no table in braces is a scalar at any depth. -/
theorem value_eq_scalar {cs : List Char} (h : ∀ c ∈ cs.head?, c ≠ '[' ∧ c ≠ '{') (levels : Nat) :
    value levels cs = scalar cs := by
  cases levels with
  | zero => rfl
  | succ levels =>
    rw [value]
    · rintro rest rfl
      exact (h '[' rfl).1 rfl
    · rintro rest rfl
      exact (h '{' rfl).2 rfl

/-- A value begins with none of the brackets, and with no blank. -/
theorem SpellsValue.eq_cons {v : Value} (h : SpellsValue text v) :
    ∃ c tail, text = c :: tail ∧ c ≠ '[' ∧ c ≠ '{' ∧ isBlank c = false := by
  cases h with
  | yes => exact ⟨'t', _, rfl, by decide, by decide, rfl⟩
  | no => exact ⟨'f', _, rfl, by decide, by decide, rfl⟩
  | string hString =>
    cases hString with
    | quoted _ => exact ⟨'"', _, rfl, by decide, by decide, rfl⟩
  | integer hInteger _ _ =>
    obtain ⟨c, tail, rfl, hNe⟩ := hInteger.eq_cons
    refine ⟨c, tail, rfl, hNe '[' (by decide), hNe '{' (by decide), ?_⟩
    simp [isBlank, hNe ' ' (by decide), hNe '\t' (by decide)]

/-- A key, an equals sign and a value are read as the key with the value, whatever
blanks stand around the sign. -/
theorem assignment_of_spelled {key before after : List Char} {name : String} {v : Value}
    (hKey : SpellsKey key name) (hBefore : Blanks before) (hAfter : Blanks after)
    (hValue : SpellsValue text v) (hRest : GoesOn valueEnds rest) :
    assignment anyValue (key ++ before ++ '=' :: (after ++ text) ++ rest) =
      some ((⟨[], name⟩, v), rest) := by
  have hPath := @keyPath_of_spelled key [] before (after ++ text ++ rest) name '='
    (List.forall_mem_nil _) hKey hBefore (by decide)
  have hScalar := scalar_of_spelled hValue hRest
  obtain ⟨c, tail, rfl, hBracket, hBrace, hBlank⟩ := hValue.eq_cons
  have hSkip : skipBlanks (after ++ (c :: tail ++ rest)) = c :: tail ++ rest :=
    skipBlanks_append hAfter (by rintro d ⟨⟩; exact hBlank)
  have hAny : anyValue (c :: tail ++ rest) = some (v, rest) := by
    rw [anyValue, value_eq_scalar (by rintro d ⟨⟩; exact ⟨hBracket, hBrace⟩), hScalar]
  have hText : key ++ before ++ '=' :: (after ++ c :: tail) ++ rest =
      [] ++ key ++ before ++ '=' :: (after ++ c :: tail ++ rest) := by
    simp only [List.nil_append, List.append_assoc, List.cons_append]
  rw [hText, assignment, hPath]
  simp only [Option.bind_eq_bind, Option.bind_some, char_self, List.append_assoc, hSkip, hAny]
  rfl

/-- A key in brackets opens the table of that name; it is not mistaken for an element of
an array of tables, which has two brackets. -/
theorem header_of_spelled {key before after : List Char} {name : String} (hBefore : Blanks before)
    (hKey : SpellsKey key name) (hAfter : Blanks after) :
    header ('[' :: (before ++ key ++ after ++ [']']) ++ rest) = some (.table ⟨[], name⟩, rest) := by
  have hPath := @keyPath_of_spelled key before after rest name ']' hBefore hKey hAfter (by decide)
  have hText : '[' :: (before ++ key ++ after ++ [']']) ++ rest =
      '[' :: (before ++ key ++ after ++ ']' :: rest) := by
    simp only [List.append_assoc, List.cons_append, List.nil_append]
  have hSingle (more : List Char) : before ++ key ++ after ++ ']' :: rest ≠ '[' :: more := by
    intro hSame
    obtain ⟨c, tail, rfl, -, hNe⟩ := hKey.eq_cons
    have hFirst : GoesOn [c] (c :: tail ++ (after ++ ']' :: rest)) := by
      rintro d ⟨⟩
      exact List.mem_singleton_self _
    rw [List.append_assoc, List.append_assoc] at hSame
    have hBracket := hBefore.goesOn hFirst '[' (by rw [hSame]; rfl)
    have hSame : '[' = c := by simpa using hBracket
    exact hNe (hSame ▸ List.mem_cons_self ..)
  rw [hText, header]
  · rw [hPath]
    simp only [Option.bind_eq_bind, Option.bind_some, char_self]
    rfl
  · exact hSingle

/-- A statement is told by its first character, and read as what it spells. -/
theorem statement_of_spelled (h : SpellsStatement text s) (hRest : GoesOn valueEnds rest) :
    statement (text ++ rest) = some (some s, rest) := by
  cases h with
  | table hBefore hKey hAfter =>
    change (header _).map _ = _
    rw [header_of_spelled hBefore hKey hAfter]
    rfl
  | assignment hKey hBefore hAfter hValue =>
    have hAssignment := assignment_of_spelled hKey hBefore hAfter hValue hRest
    obtain ⟨c, tail, rfl, -, hNe⟩ := hKey.eq_cons
    rw [statement]
    split
    case h_6 => rw [hAssignment]; rfl
    case h_2 hNone => cases hNone
    all_goals
      next hFirst =>
        obtain rfl := Option.some.inj hFirst
        simp at hNe

theorem SpellsStatement.eq_cons (h : SpellsStatement text s) :
    ∃ c tail, text = c :: tail ∧ isBlank c = false := by
  cases h with
  | table _ _ _ => exact ⟨'[', _, rfl, rfl⟩
  | assignment hKey _ _ _ =>
    obtain ⟨c, tail, rfl, hBlank, -⟩ := hKey.eq_cons
    exact ⟨c, _, rfl, hBlank⟩

theorem statement_of_remark {cs : List Char} (h : GoesOn ('#' :: breaks) cs) :
    statement cs = some (none, cs) := by
  cases cs with
  | nil => rfl
  | cons c cs =>
    have hFirst := h c rfl
    simp only [breaks, List.mem_cons, List.not_mem_nil, or_false] at hFirst
    rcases hFirst with rfl | rfl | rfl <;> rfl

/-- A line is read as the statement on it, if there is one, and its comment is skipped. -/
theorem line_of_spelled {said : Option Statement} (h : SpellsLine text said)
    (hRest : GoesOn breaks rest) :
    line (text ++ rest) = (nextLine rest).map fun more => (said, more) := by
  cases h with
  | @empty blanks remark hBlanks hRemark =>
    have hGoesOn := hRemark.goesOn hRest
    have hSkip : skipBlanks (blanks ++ (remark ++ rest)) = remark ++ rest :=
      skipBlanks_append hBlanks (hGoesOn.forall (by decide))
    have hEnd : lineEnd (remark ++ rest) = nextLine rest :=
      lineEnd_of_spelled (List.forall_mem_nil _) hRemark hRest
    rw [line, List.append_assoc, hSkip, statement_of_remark hGoesOn]
    simp only [Option.bind_eq_bind, Option.bind_some, hEnd]
    cases nextLine rest <;> rfl
  | @full before text after remark s hBefore hStatement hAfter hRemark =>
    have hGoesOn := hAfter.goesOn (hRemark.goesOn hRest)
    have hRead := statement_of_spelled hStatement hGoesOn
    have hEnd := lineEnd_of_spelled hAfter hRemark hRest
    obtain ⟨c, tail, rfl, hBlank⟩ := hStatement.eq_cons
    have hSkip : skipBlanks (before ++ (c :: tail ++ (after ++ (remark ++ rest)))) =
        c :: tail ++ (after ++ (remark ++ rest)) :=
      skipBlanks_append hBefore (by rintro d ⟨⟩; exact hBlank)
    rw [line]
    simp only [List.append_assoc] at hSkip hRead hEnd ⊢
    simp only [hSkip, hRead, hEnd, Option.bind_eq_bind, Option.bind_some]
    cases nextLine rest <;> rfl

/-- Reading line by line takes the whole text and finds what each line says. -/
theorem many_line_of_spelled {ss : List Statement} (h : SpellsLines text ss) :
    ∃ lines, many line text = (lines, []) ∧ lines.filterMap id = ss := by
  induction h with
  | @last text said hLine =>
    have hRead : line text = some (said, []) := by
      rw [← List.append_nil text, line_of_spelled hLine (by rintro c ⟨⟩)]
      rfl
    have hEmpty : many line [] = ([], []) := by
      rw [many]
      rfl
    cases text with
    | nil =>
      obtain rfl : none = said := congrArg Prod.fst (Option.some.inj hRead)
      exact ⟨[], hEmpty, rfl⟩
    | cons c text =>
      refine ⟨[said], ?_, ?_⟩
      · rw [many_of_eq_some hRead (Nat.zero_lt_succ _), hEmpty]
      · cases said <;> rfl
  | @next text ending more said ss hLine hEnding hMore ih =>
    obtain ⟨lines, hLines, rfl⟩ := ih
    have hBreak : GoesOn breaks (ending ++ more) ∧ nextLine (ending ++ more) = some more ∧
        0 < ending.length := by
      cases hEnding <;> exact ⟨by rintro c ⟨⟩; decide, rfl, by decide⟩
    obtain ⟨hRest, hNext, hPos⟩ := hBreak
    have hRead : line (text ++ ending ++ more) = some (said, more) := by
      rw [List.append_assoc, line_of_spelled hLine hRest, hNext]
      rfl
    have hShort : more.length < (text ++ ending ++ more).length := by
      simp only [List.length_append]
      omega
    refine ⟨said :: lines, ?_, ?_⟩
    · rw [many_of_eq_some hRead hShort, hLines]
    · cases said <;> rfl

/-- The statements of a text are those of its lines, in their order. -/
theorem statements_of_spelled {ss : List Statement} (h : SpellsLines text ss) :
    statements text = some ss := by
  obtain ⟨lines, hLines, rfl⟩ := many_line_of_spelled h
  rw [statements, hLines]
  rfl

/-- No line begins with a byte order mark. -/
theorem statements_byteOrderMark (cs : List Char) : statements ('\ufeff' :: cs) = none := by
  have hLine : line ('\ufeff' :: cs) = none := rfl
  rw [statements, many_of_eq_none hLine]
  rfl

/-- A document is what its statements define, with or without a byte order mark before
them. -/
theorem parse_of_spelled {document : String} {ss : List Statement}
    (h : SpellsDocument document ss) : parse document = define ss := by
  cases h with
  | unmarked hLines =>
    have hRead := statements_of_spelled hLines
    have hDrop : dropByteOrderMark document.toList = document.toList := by
      rw [dropByteOrderMark]
      intro cs hMark
      rw [hMark, statements_byteOrderMark] at hRead
      cases hRead
    rw [parse, hDrop, hRead, Option.bind_some]
  | marked hText hLines =>
    rw [parse, hText, dropByteOrderMark, statements_of_spelled hLines, Option.bind_some]

end Lines

end NodeStore.Toml
