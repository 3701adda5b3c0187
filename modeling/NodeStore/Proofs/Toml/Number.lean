import NodeStore.Proofs.Toml.Space

/-!
Plain integers are read as what they spell: they are no date and no number with a
fraction or an exponent, and the digits make up the number.
-/

namespace NodeStore.Toml

section Digits

variable {base : Nat}

/-- What holds of the digits of a base holds of all characters that spell them. -/
theorem SpellsDigit.of_forall {c : Char} {d : Nat} (h : SpellsDigit base c d)
    {P : Char → Nat → Prop}
    (hAll : ∀ d < base, P (Nat.digitChar d) d ∧ P (Nat.digitChar d).toUpper d) : P c d := by
  obtain ⟨hLow, rfl | rfl⟩ := h
  · exact (hAll d hLow).1
  · exact (hAll d hLow).2

/-- A digit of a smaller base is one in base 16 too. -/
theorem SpellsDigit.hex {c : Char} {d : Nat} (h : SpellsDigit base c d) (hBase : base ≤ 16) :
    SpellsDigit 16 c d :=
  ⟨Nat.lt_of_lt_of_le h.1 hBase, h.2⟩

theorem SpellsDigit.digit? {c : Char} {d : Nat} (h : SpellsDigit 16 c d) :
    Hex.digit? c = some d :=
  h.of_forall (P := fun c d => Hex.digit? c = some d) (by decide)

/-- The number of some digits, taken from the first digit on. -/
theorem magnitude_eq_foldl (digits : List Nat) :
    magnitude base digits = digits.foldl (fun n d => n * base + d) 0 := by
  rw [magnitude, Nat.ofDigits_eq_foldr, List.foldr_reverse]
  simp only [Nat.cast_id, Nat.mul_comm base, Nat.add_comm]

/-- Digits are read as the number that they spell. -/
theorem numberOf_of_spelled {found : List Char} {digits : List Nat} (hBase : base ≤ 16)
    (h : List.Forall₂ (SpellsDigit base) found digits) :
    numberOf base found = magnitude base digits := by
  have hFold (n : Nat) :
      found.foldl (fun n c => n * base + (Hex.digit? c).getD 0) n =
        digits.foldl (fun n d => n * base + d) n := by
    induction h generalizing n with
    | nil => rfl
    | cons hDigit _ ih =>
      rw [List.foldl_cons, List.foldl_cons, (hDigit.hex hBase).digit?]
      exact ih _
  rw [magnitude_eq_foldl]
  exact hFold 0

theorem hexNumber_of_spelled {found : List Char} {digits : List Nat}
    (h : List.Forall₂ (SpellsDigit 16) found digits) :
    hexNumber found = some (magnitude 16 digits) := by
  have hFold (n : Nat) :
      found.foldlM (fun n c => (Hex.digit? c).map (n * 16 + ·)) n =
        some (digits.foldl (fun n d => n * 16 + d) n) := by
    induction h generalizing n with
    | nil => rfl
    | cons hDigit _ ih =>
      rw [List.foldlM_cons, hDigit.digit?]
      exact ih _
  rw [magnitude_eq_foldl]
  exact hFold 0

section Run

variable {isDigit : Char → Bool}

/-- A run of digits ends where neither a digit nor an underscore stands. -/
theorem moreDigits_stop {rest : List Char} (hStop : ∀ c ∈ rest.head?, isDigit c = false ∧ c ≠ '_') :
    moreDigits isDigit rest = ([], rest) := by
  cases rest with
  | nil => rfl
  | cons c rest =>
    obtain ⟨hDigit, hUnderscore⟩ := hStop c rfl
    rw [moreDigits, if_neg (by simp [hDigit])]
    exact fun d rest h _ => hUnderscore h

/-- What a run of digits is on its own it is behind other digits, with or
without an underscore between them. -/
theorem moreDigits_of_digitRun {cs found rest : List Char} (hUnderscore : isDigit '_' = false)
    (h : digitRun isDigit cs = some (found, rest)) :
    moreDigits isDigit cs = (found, rest) ∧ moreDigits isDigit ('_' :: cs) = (found, rest) := by
  cases cs with
  | nil => simp [digitRun] at h
  | cons d cs =>
    by_cases hDigit : isDigit d
    · have hNe : d ≠ '_' := ne_of_class hDigit hUnderscore
      rw [digitRun, if_pos hDigit] at h
      obtain ⟨rfl, rfl⟩ := Prod.mk.inj (Option.some.inj h)
      constructor
      · rw [moreDigits, if_pos hDigit]
        exact fun e more h _ => hNe h
      · rw [moreDigits, if_pos hDigit]
    · rw [digitRun, if_neg hDigit] at h
      cases h

/-- A run of digits is read up to a character that cannot belong to it. -/
theorem digitRun_of_spelled {text rest : List Char} {digits : List Nat}
    (h : SpellsDigits base text digits) (hClass : ∀ c d, SpellsDigit base c d → isDigit c)
    (hUnderscore : isDigit '_' = false)
    (hStop : ∀ c ∈ rest.head?, isDigit c = false ∧ c ≠ '_') :
    ∃ found, digitRun isDigit (text ++ rest) = some (found, rest) ∧
      List.Forall₂ (SpellsDigit base) found digits := by
  induction h with
  | @last c d hDigit =>
    refine ⟨[c], ?_, .cons hDigit .nil⟩
    rw [List.singleton_append, digitRun, if_pos (hClass c d hDigit), moreDigits_stop hStop]
  | @next c d text digits hDigit _ ih =>
    obtain ⟨found, hFound, hSpelled⟩ := ih
    refine ⟨c :: found, ?_, .cons hDigit hSpelled⟩
    rw [List.cons_append, digitRun, if_pos (hClass c d hDigit),
      (moreDigits_of_digitRun hUnderscore hFound).1]
  | @apart c d text digits hDigit _ ih =>
    obtain ⟨found, hFound, hSpelled⟩ := ih
    refine ⟨c :: found, ?_, .cons hDigit hSpelled⟩
    rw [List.cons_append, List.cons_append, digitRun, if_pos (hClass c d hDigit),
      (moreDigits_of_digitRun hUnderscore hFound).2]

end Run

theorem SpellsDigits.eq_cons {text : List Char} {digits : List Nat}
    (h : SpellsDigits base text digits) :
    ∃ c tail d more, text = c :: tail ∧ digits = d :: more ∧ SpellsDigit base c d := by
  cases h with
  | last hDigit => exact ⟨_, _, _, _, rfl, rfl, hDigit⟩
  | next hDigit _ => exact ⟨_, _, _, _, rfl, rfl, hDigit⟩
  | apart hDigit _ => exact ⟨_, _, _, _, rfl, rfl, hDigit⟩

/-- Nothing but digits and underscores stands in a run of digits. -/
theorem SpellsDigits.forall_mem {text : List Char} {digits : List Nat}
    (h : SpellsDigits base text digits) : ∀ c ∈ text, c = '_' ∨ ∃ d, SpellsDigit base c d := by
  induction h with
  | last hDigit => exact List.forall_mem_singleton.2 (.inr ⟨_, hDigit⟩)
  | next hDigit _ ih => exact List.forall_mem_cons.2 ⟨.inr ⟨_, hDigit⟩, ih⟩
  | apart hDigit _ ih =>
    exact List.forall_mem_cons.2 ⟨.inr ⟨_, hDigit⟩, List.forall_mem_cons.2 ⟨.inl rfl, ih⟩⟩

end Digits

section Dates

variable {cs text rest : List Char}

/-- A number of fixed width is read off digits. -/
theorem fixedNumber_eq_some {count n : Nat} (h : fixedNumber count cs = some (n, rest)) :
    ∃ ds, cs = ds ++ rest ∧ ds.length = count ∧ ∀ d ∈ ds, d.isDigit := by
  rw [fixedNumber] at h
  obtain ⟨_, hGuard, hResult⟩ := Option.bind_eq_some_iff.1 h
  obtain ⟨hCount, hDigits⟩ := (Option.guard_eq_some' _).1 hGuard
  obtain ⟨-, rfl⟩ := Prod.mk.inj (Option.some.inj hResult)
  exact ⟨cs.take count, (List.take_append_drop ..).symm, hCount, List.all_eq_true.1 hDigits⟩

theorem twoDigits_eq_some {least most n : Nat} (h : twoDigits least most cs = some (n, rest)) :
    ∃ ds, cs = ds ++ rest ∧ ds.length = 2 ∧ ∀ d ∈ ds, d.isDigit := by
  rw [twoDigits] at h
  obtain ⟨⟨m, more⟩, hNumber, hMore⟩ := Option.bind_eq_some_iff.1 h
  obtain ⟨_, -, hResult⟩ := Option.bind_eq_some_iff.1 hMore
  obtain ⟨-, rfl⟩ := Prod.mk.inj (Option.some.inj hResult)
  exact fixedNumber_eq_some hNumber

/-- A date or a time begins with digits, the next of which is a dash or a
colon. -/
theorem exists_of_skipDateTime (h : skipDateTime cs = some rest) :
    ∃ ds mark more, cs = ds ++ mark :: more ∧ ds ≠ [] ∧ (∀ d ∈ ds, d.isDigit) ∧
      (mark = '-' ∨ mark = ':') := by
  rw [skipDateTime] at h
  cases hDate : skipDate cs with
  | some after =>
    rw [skipDate] at hDate
    obtain ⟨⟨year, more⟩, hYear, hMore⟩ := Option.bind_eq_some_iff.1 hDate
    obtain ⟨more', hChar, -⟩ := Option.bind_eq_some_iff.1 hMore
    obtain ⟨ds, rfl, hCount, hDigits⟩ := fixedNumber_eq_some hYear
    rw [eq_cons_of_char hChar]
    exact ⟨ds, '-', more', rfl, List.ne_nil_of_length_eq_add_one hCount, hDigits, .inl rfl⟩
  | none =>
    rw [hDate] at h
    rw [skipTime] at h
    obtain ⟨⟨hour, more⟩, hHour, hMore⟩ := Option.bind_eq_some_iff.1 h
    obtain ⟨more', hChar, -⟩ := Option.bind_eq_some_iff.1 hMore
    obtain ⟨ds, rfl, hCount, hDigits⟩ := twoDigits_eq_some hHour
    rw [eq_cons_of_char hChar]
    exact ⟨ds, ':', more', rfl, List.ne_nil_of_length_eq_add_one hCount, hDigits, .inr rfl⟩

/-- A date and a time begin with a digit. -/
theorem dateTime_eq_none_of_head (h : ∀ c ∈ cs.head?, c.isDigit = false) :
    dateTime cs = none := by
  cases hSkip : skipDateTime cs with
  | none => simp [dateTime, hSkip]
  | some rest =>
    obtain ⟨ds, mark, more, rfl, hNil, hDigits, -⟩ := exists_of_skipDateTime hSkip
    cases ds with
    | nil => exact absurd rfl hNil
    | cons d ds => exact absurd rfl (ne_of_class (hDigits d (List.mem_cons_self ..)) (h d rfl))

/-- A word without dashes and colons is no date and no time, unless it runs on
into more digits or into one of these marks. -/
theorem dateTime_eq_none (hText : ∀ c ∈ text, c ≠ '-' ∧ c ≠ ':')
    (hStop : ∀ c ∈ rest.head?, c.isDigit = false ∧ c ≠ '-' ∧ c ≠ ':') :
    dateTime (text ++ rest) = none := by
  cases hSkip : skipDateTime (text ++ rest) with
  | none => simp [dateTime, hSkip]
  | some after =>
    obtain ⟨ds, mark, more, hSplit, -, hDigits, hMark⟩ := exists_of_skipDateTime hSkip
    -- the mark stands in the word, or starts the rest, or the rest starts with a digit
    rcases List.append_eq_append_iff.1 hSplit with ⟨mid, rfl, hMid⟩ | ⟨mid, rfl, hMid⟩
    · cases mid with
      | nil =>
        have hHead := (hStop mark (by rw [hMid]; rfl)).2
        exact absurd hMark (by simp [hHead])
      | cons d mid =>
        have hDigit := hDigits d (List.mem_append_right _ (List.mem_cons_self ..))
        exact absurd rfl (ne_of_class hDigit (hStop d (by rw [hMid]; rfl)).1)
    · cases mid with
      | nil =>
        have hHead := (hStop mark (by rw [← List.nil_append rest, ← hMid]; rfl)).2
        exact absurd hMark (by simp [hHead])
      | cons d mid =>
        obtain rfl := (List.cons.inj hMid).1
        have hWord := hText _ (List.mem_append_right _ (List.mem_cons_self ..))
        exact absurd hMark (by simp [hWord])

end Dates

section Integers

variable {text rest : List Char} {digits : List Nat}

theorem boundedInteger_of_fits {n : Int} (hLow : -2 ^ 63 ≤ n) (hHigh : n < 2 ^ 63) :
    boundedInteger n = some n :=
  if_pos ⟨hLow, hHigh⟩

theorem SpellsDigit.isDigit {c : Char} {d : Nat} (h : SpellsDigit 10 c d) : c.isDigit :=
  h.of_forall (P := fun c _ => c.isDigit) (by decide)

/-- A decimal number without needless zeros in front is a zero, or does not
begin with one. -/
theorem SpellsDigits.zero_or_head (hDigits : SpellsDigits 10 text digits)
    (hLead : digits = [0] ∨ digits.head? ≠ some 0) :
    text = ['0'] ∧ digits = [0] ∨ text.head? ≠ some '0' := by
  have hZero {c : Char} {d : Nat} (hDigit : SpellsDigit 10 c d) : c = '0' ↔ d = 0 :=
    hDigit.of_forall (P := fun c d => c = '0' ↔ d = 0) (by decide)
  cases hLead with
  | inl hOne =>
    subst hOne
    cases hDigits with
    | last hDigit => exact .inl ⟨congrArg ([·]) ((hZero hDigit).2 rfl), rfl⟩
    | next _ hMore => cases hMore
    | apart _ hMore => cases hMore
  | inr hHead =>
    obtain ⟨c, tail, d, more, rfl, rfl, hDigit⟩ := hDigits.eq_cons
    exact .inr fun hSame => hHead (congrArg some ((hZero hDigit).1 (Option.some.inj hSame)))

/-- The decimal digits of a number are read to their end, also those of a zero. -/
theorem wholeDigits_of_spelled (hDigits : SpellsDigits 10 text digits)
    (hLead : digits = [0] ∨ digits.head? ≠ some 0)
    (hStop : ∀ c ∈ rest.head?, c.isDigit = false ∧ c ≠ '_') :
    ∃ found, wholeDigits (text ++ rest) = some (found, rest) ∧
      List.Forall₂ (SpellsDigit 10) found digits := by
  rcases hDigits.zero_or_head hLead with ⟨rfl, rfl⟩ | hHead
  · exact ⟨['0'], rfl, .cons (spellsDigit_digitChar (by decide)) .nil⟩
  · have hRun := digitRun_of_spelled hDigits (fun c d => SpellsDigit.isDigit) rfl hStop
    obtain ⟨c, tail, d, more, rfl, rfl, hDigit⟩ := hDigits.eq_cons
    have hWhole : wholeDigits (c :: tail ++ rest) = digitRun Char.isDigit (c :: tail ++ rest) := by
      rw [wholeDigits]
      exact fun after hSame => hHead (congrArg some (List.cons.inj hSame).1)
    rwa [hWhole]

/-- No digit and no sign of a number, of its base or of its end starts a
fraction or an exponent, so a number without these is no decimal one. -/
theorem float_eq_none {cs whole more : List Char} {c : Char} (hSign : (sign cs).2 = c :: more)
    (hDigit : c.isDigit) (hWhole : wholeDigits (c :: more) = some (whole, rest))
    (hStop : ∀ c ∈ rest.head?, c ≠ '.' ∧ c ≠ 'e' ∧ c ≠ 'E') : float cs = none := by
  have hFraction : fraction rest = none := by
    cases rest with
    | nil => rfl
    | cons c rest =>
      rw [fraction]
      exact fun more h => (hStop c rfl).1 (List.cons.inj h).1
  have hExponent : exponent rest = none := by
    cases rest with
    | nil => rfl
    | cons c rest =>
      rw [exponent, if_neg]
      simp [(hStop c rfl).2]
  have hDecimal : decimal cs = none := by
    rw [decimal]
    simp only [hSign, hWhole, hFraction, hExponent, Option.bind_eq_bind, Option.bind_some,
      Option.bind_none]
  have hInf : word ['i', 'n', 'f'] (c :: more) = none := word_eq_none (ne_of_class hDigit rfl).symm
  have hNan : word ['n', 'a', 'n'] (c :: more) = none := word_eq_none (ne_of_class hDigit rfl).symm
  have hSpecial : specialFloat cs = none := by
    rw [specialFloat, hSign, hInf, hNan]
    rfl
  rw [float, hDecimal, hSpecial]
  rfl

/-- A sign is taken off the digits behind it. -/
theorem sign_of_spelled {s : List Char} {factor : Int} (hSign : SpellsSign s factor)
    (hDigits : SpellsDigits 10 text digits) :
    sign (s ++ text ++ rest) = (decide (factor = -1), text ++ rest) := by
  cases hSign with
  | none =>
    obtain ⟨c, tail, d, more, rfl, rfl, hDigit⟩ := hDigits.eq_cons
    obtain ⟨hPlus, hMinus⟩ : c ≠ '+' ∧ c ≠ '-' :=
      hDigit.of_forall (P := fun c _ => c ≠ '+' ∧ c ≠ '-') (by decide)
    rw [List.nil_append, List.cons_append, sign]
    · rfl
    · exact fun more h => hPlus (List.cons.inj h).1
    · exact fun more h => hMinus (List.cons.inj h).1
  | plus => rfl
  | minus => rfl

theorem factor_mul {s : List Char} {factor : Int} (hSign : SpellsSign s factor) (n : Nat) :
    (if decide (factor = -1) then -(n : Int) else n) = factor * n := by
  cases hSign <;> simp

/-- Digits in a base with a mark of its own are read as their number. -/
theorem basedInteger_of_spelled {base : Nat} {isDigit : Char → Bool} (hBase : base ≤ 16)
    (hClass : ∀ d < base, isDigit (Nat.digitChar d) ∧ isDigit (Nat.digitChar d).toUpper)
    (hUnderscore : isDigit '_' = false) (hEnds : valueEnds.all fun c => isDigit c = false ∧ c ≠ '_')
    (hDigits : SpellsDigits base text digits) (hHigh : (magnitude base digits : Int) < 2 ^ 63)
    (hRest : GoesOn valueEnds rest) :
    basedInteger base isDigit (text ++ rest) = some ((magnitude base digits : Int), rest) := by
  obtain ⟨found, hFound, hSpelled⟩ := digitRun_of_spelled hDigits
    (fun c d h => h.of_forall (P := fun c _ => isDigit c) hClass) hUnderscore (hRest.forall hEnds)
  have hLow : -2 ^ 63 ≤ (magnitude base digits : Int) :=
    Int.le_trans (by decide) (Int.natCast_nonneg _)
  have hNumber : boundedInteger (numberOf base found) = some (magnitude base digits : Int) := by
    rw [numberOf_of_spelled hBase hSpelled, boundedInteger_of_fits hLow hHigh]
  exact Option.bind_eq_some_iff.2 ⟨_, hFound, Option.bind_eq_some_iff.2 ⟨_, hNumber, rfl⟩⟩

/-- Decimal digits, with a sign or without, are read as their number. -/
theorem decimalInteger_of_spelled {s : List Char} {factor : Int} (hSign : SpellsSign s factor)
    (hDigits : SpellsDigits 10 text digits) (hLead : digits = [0] ∨ digits.head? ≠ some 0)
    (hLow : -2 ^ 63 ≤ factor * magnitude 10 digits) (hHigh : factor * magnitude 10 digits < 2 ^ 63)
    (hRest : GoesOn valueEnds rest) :
    decimalInteger (s ++ text ++ rest) = some (factor * magnitude 10 digits, rest) := by
  have hStop : ∀ c ∈ rest.head?, c.isDigit = false ∧ c ≠ '_' := hRest.forall (by decide)
  obtain ⟨found, hFound, hSpelled⟩ := wholeDigits_of_spelled hDigits hLead hStop
  rw [decimalInteger, sign_of_spelled hSign hDigits]
  simp only [hFound, Option.bind_eq_bind, Option.bind_some, factor_mul hSign,
    numberOf_of_spelled (show 10 ≤ 16 by decide) hSpelled, boundedInteger_of_fits hLow hHigh]
  rfl

/-- A text goes through the reader of decimal numbers unless a letter marks
another base behind a zero. -/
theorem integer_eq_decimalInteger {cs : List Char}
    (h : ∀ mark more, cs = '0' :: mark :: more → mark ≠ 'x' ∧ mark ≠ 'o' ∧ mark ≠ 'b') :
    integer cs = decimalInteger cs := by
  rw [integer]
  · exact fun more hSame => (h 'x' more hSame).1 rfl
  · exact fun more hSame => (h 'o' more hSame).2.1 rfl
  · exact fun more hSame => (h 'b' more hSame).2.2 rfl

/-- An integer is read as what it spells, in whatever base, if it fits into 64 bits. -/
theorem integer_of_spelled {n : Int} (h : SpellsInteger text n) (hLow : -2 ^ 63 ≤ n)
    (hHigh : n < 2 ^ 63) (hRest : GoesOn valueEnds rest) :
    integer (text ++ rest) = some (n, rest) := by
  cases h with
  | @decimal s text factor digits hSign hDigits hLead =>
    rw [integer_eq_decimalInteger]
    · exact decimalInteger_of_spelled hSign hDigits hLead hLow hHigh hRest
    · intro mark more hSame
      cases hSign with
      | none =>
        rcases hDigits.zero_or_head hLead with ⟨rfl, -⟩ | hHead
        · obtain rfl := (List.cons.inj hSame).2
          have hMark : valueEnds.all fun c => c ≠ 'x' ∧ c ≠ 'o' ∧ c ≠ 'b' := by decide
          exact hRest.forall hMark mark rfl
        · obtain ⟨c, tail, d, more, rfl, rfl, -⟩ := hDigits.eq_cons
          exact absurd (congrArg some (List.cons.inj hSame).1) hHead
      | plus => exact absurd (List.cons.inj hSame).1 (by decide)
      | minus => exact absurd (List.cons.inj hSame).1 (by decide)
  | @marked mark base text digits hMark hDigits =>
    cases hMark with
    | hexadecimal =>
      exact basedInteger_of_spelled (by decide) (by decide) rfl (by decide) hDigits hHigh hRest
    | octal =>
      exact basedInteger_of_spelled (by decide) (by decide) rfl (by decide) hDigits hHigh hRest
    | binary =>
      exact basedInteger_of_spelled (by decide) (by decide) rfl (by decide) hDigits hHigh hRest

/-- No integer is taken for a float: it has neither a point nor an exponent. -/
theorem float_of_spelled {n : Int} (h : SpellsInteger text n) (hRest : GoesOn valueEnds rest) :
    float (text ++ rest) = none := by
  cases h with
  | @decimal s text factor digits hSign hDigits hLead =>
    obtain ⟨found, hFound, -⟩ := wholeDigits_of_spelled hDigits hLead (hRest.forall (by decide))
    have hSigned : (sign (s ++ text ++ rest)).2 = text ++ rest :=
      congrArg Prod.snd (sign_of_spelled hSign hDigits)
    obtain ⟨c, tail, d, more, rfl, rfl, hDigit⟩ := hDigits.eq_cons
    exact float_eq_none hSigned hDigit.isDigit hFound (hRest.forall (by decide))
  | @marked mark base text digits hMark hDigits =>
    have hStop : ∀ c ∈ (mark :: text ++ rest).head?, c ≠ '.' ∧ c ≠ 'e' ∧ c ≠ 'E' := by
      rintro c ⟨⟩
      cases hMark <;> decide
    exact @float_eq_none _ ('0' :: mark :: text ++ rest) _ _ '0' rfl rfl rfl hStop

theorem SpellsDigits.no_marks {base : Nat} (h : SpellsDigits base text digits) (hBase : base ≤ 16) :
    ∀ c ∈ text, c ≠ '-' ∧ c ≠ ':' := by
  intro c hMem
  rcases h.forall_mem c hMem with rfl | ⟨d, hDigit⟩
  · decide
  · exact (hDigit.hex hBase).of_forall (P := fun c _ => c ≠ '-' ∧ c ≠ ':') (by decide)

/-- No integer is taken for a date or a time. -/
theorem dateTime_of_spelled {n : Int} (h : SpellsInteger text n) (hRest : GoesOn valueEnds rest) :
    dateTime (text ++ rest) = none := by
  have hStop : ∀ c ∈ rest.head?, c.isDigit = false ∧ c ≠ '-' ∧ c ≠ ':' := hRest.forall (by decide)
  cases h with
  | @decimal s text factor digits hSign hDigits hLead =>
    cases hSign with
    | none => exact dateTime_eq_none (hDigits.no_marks (by decide)) hStop
    | plus => exact dateTime_eq_none_of_head (by rintro c ⟨⟩; rfl)
    | minus => exact dateTime_eq_none_of_head (by rintro c ⟨⟩; rfl)
  | @marked mark base text digits hMark hDigits =>
    obtain ⟨hLetter, hBase⟩ : (mark ≠ '-' ∧ mark ≠ ':') ∧ base ≤ 16 := by
      cases hMark <;> decide
    have hText : ∀ c ∈ '0' :: mark :: text, c ≠ '-' ∧ c ≠ ':' :=
      List.forall_mem_cons.2 ⟨by decide, List.forall_mem_cons.2 ⟨hLetter, hDigits.no_marks hBase⟩⟩
    exact dateTime_eq_none hText hStop

/-- An integer begins with a digit or a sign, and with nothing else. -/
theorem SpellsInteger.eq_cons {n : Int} (h : SpellsInteger text n) :
    ∃ c tail, text = c :: tail ∧
      ∀ other : Char, other.isDigit = false ∧ other ≠ '+' ∧ other ≠ '-' → c ≠ other := by
  cases h with
  | @decimal s text factor digits hSign hDigits hLead =>
    cases hSign with
    | none =>
      obtain ⟨c, tail, d, more, rfl, rfl, hFirst⟩ := hDigits.eq_cons
      exact ⟨c, tail, rfl, fun other hOther => ne_of_class hFirst.isDigit hOther.1⟩
    | plus => exact ⟨'+', text, rfl, fun other hOther => hOther.2.1.symm⟩
    | minus => exact ⟨'-', text, rfl, fun other hOther => hOther.2.2.symm⟩
  | marked _ _ => exact ⟨'0', _, rfl, fun other hOther => ne_of_class rfl hOther.1⟩

end Integers

end NodeStore.Toml
