import NodeStore.Proofs.Toml.Number

/-!
Strings and keys are read as what they spell. A string in double quotes gives
back its characters, escaped or not; a key is read up to what may follow it.
-/

namespace NodeStore.Toml

section Strings

variable {text content rest : List Char} {c : Char}

theorem charOfNumber_toNat (c : Char) : charOfNumber c.toNat = some c := by
  rw [charOfNumber, if_pos (show c.toNat.isValidChar from c.valid), Char.ofNat_toNat]

/-- Digits in base 16, as many as are due, are read as the character that has their
number. -/
theorem hexEscape_of_spelled {count : Nat} {digits : List Nat} (hCount : text.length = count)
    (hDigits : List.Forall₂ (SpellsDigit 16) text digits) (hChar : magnitude 16 digits = c.toNat) :
    hexEscape count (text ++ rest) = some (c, rest) := by
  have hNumber : (hexNumber text).bind charOfNumber = some c := by
    rw [hexNumber_of_spelled hDigits, Option.bind_some, hChar, charOfNumber_toNat]
  rw [hexEscape, List.take_left' hCount, List.drop_left' hCount, hNumber]
  simp [hCount]

/-- A letter that stands for a character behind a backslash is read as that character. -/
theorem escape_of_short {letter : Char} (h : (letter, c) ∈ shortEscapes) :
    escape (letter :: rest) = some (c, rest) := by
  simp only [shortEscapes, List.mem_cons, List.not_mem_nil, or_false, Prod.mk.injEq] at h
  rcases h with ⟨rfl, rfl⟩ | ⟨rfl, rfl⟩ | ⟨rfl, rfl⟩ | ⟨rfl, rfl⟩ | ⟨rfl, rfl⟩ | ⟨rfl, rfl⟩ | ⟨rfl, rfl⟩
  all_goals rfl

/-- A letter that announces digits is read, with them, as the character of that number. -/
theorem escape_of_code {letter : Char} {count : Nat} {digits : List Nat}
    (hCode : (letter, count) ∈ codeEscapes) (hCount : text.length = count)
    (hDigits : List.Forall₂ (SpellsDigit 16) text digits) (hChar : magnitude 16 digits = c.toNat) :
    escape (letter :: (text ++ rest)) = some (c, rest) := by
  have hRead : hexEscape count (text ++ rest) = some (c, rest) :=
    hexEscape_of_spelled hCount hDigits hChar
  simp only [codeEscapes, List.mem_cons, List.not_mem_nil, or_false, Prod.mk.injEq] at hCode
  rcases hCode with ⟨rfl, rfl⟩ | ⟨rfl, rfl⟩
  · exact hRead
  · exact hRead

/-- What an escape is read as comes first in the body of the string around it. -/
theorem basicBody_escape {cs : List Char} (h : escape cs = some (c, rest)) :
    basicBody ('\\' :: cs) = (basicBody rest).map fun (body, rest) => (c :: body, rest) := by
  rw [basicBody]
  split
  · next hNone => rw [h] at hNone; cases hNone
  · next d more hSome =>
    obtain ⟨rfl, rfl⟩ := Prod.mk.inj (Option.some.inj (h.symm.trans hSome))
    cases basicBody rest <;> rfl

/-- Every character is read off the texts that spell it, before any rest of the
string. -/
theorem basicBody_char (h : SpellsChar text c) :
    basicBody (text ++ rest) = (basicBody rest).map fun (body, rest) => (c :: body, rest) := by
  cases h with
  | itself hText hQuote hBackslash =>
    rw [List.singleton_append, basicBody, if_pos hText]
    · cases basicBody rest <;> rfl
    · exact hQuote
    · exact hBackslash
  | short hShort => exact basicBody_escape (escape_of_short hShort)
  | code hCode hCount hDigits hChar =>
    exact basicBody_escape (escape_of_code hCode hCount hDigits hChar)

/-- The body of a string is read up to the quote that closes it, and no further. -/
theorem basicBody_of_spelled (h : SpellsContent text content) :
    basicBody (text ++ '"' :: rest) = some (content, rest) := by
  induction h with
  | nil => rw [List.nil_append, basicBody]
  | cons hChar _ ih =>
    rw [List.append_assoc, basicBody_char hChar, ih]
    rfl

/-- A string in double quotes is read as what it spells, whatever comes after it. -/
theorem lineString_of_spelled {name : String} (h : SpellsString text name) :
    lineString (text ++ rest) = some (name, rest) := by
  cases h with
  | quoted hContent =>
    rw [List.cons_append, List.append_assoc, lineString, List.singleton_append,
      basicBody_of_spelled hContent]
    exact congrArg (fun s => some (s, rest)) String.ofList_toList

/-- No quote stands inside a string without a backslash before it. -/
theorem SpellsContent.head?_ne (h : SpellsContent text content) : text.head? ≠ some '"' := by
  cases h with
  | nil => simp
  | cons hChar _ =>
    cases hChar with
    | itself _ hQuote _ => exact fun hSame => hQuote (Option.some.inj hSame)
    | short _ => simp
    | code _ _ _ _ => simp

/-- So it is where strings of several lines are allowed, as long as no quote follows:
three in a row would open one of those. -/
theorem string_of_spelled {s : String} (h : SpellsString text s) (hStop : rest.head? ≠ some '"') :
    string (text ++ rest) = some (s, rest) := by
  have hLine : lineString (text ++ rest) = some (s, rest) := lineString_of_spelled h
  cases h with
  | @quoted body _ hContent =>
    rw [string]
    · exact hLine
    · intro more hSame
      cases body with
      | nil => exact hStop (congrArg List.head? (List.cons.inj (List.cons.inj hSame).2).2)
      | cons c body =>
        exact hContent.head?_ne (congrArg some (List.cons.inj (List.cons.inj hSame).2).1)
    · exact fun more hSame => absurd (List.cons.inj hSame).1 (by decide)

/-- Only a quote begins a string. -/
theorem lineString_eq_none {c : Char} {cs : List Char} (hDouble : c ≠ '"') (hSingle : c ≠ '\'') :
    lineString (c :: cs) = none := by
  rw [lineString]
  · exact fun more h => hDouble (List.cons.inj h).1
  · exact fun more h => hSingle (List.cons.inj h).1

theorem string_eq_none {c : Char} {cs : List Char} (hDouble : c ≠ '"') (hSingle : c ≠ '\'') :
    string (c :: cs) = none := by
  rw [string, lineString_eq_none hDouble hSingle]
  · exact fun more h => hDouble (List.cons.inj h).1
  · exact fun more h => hSingle (List.cons.inj h).1

end Strings

section Keys

variable {key before after rest : List Char} {name : String}

/-- Between single quotes every character stands for itself. -/
theorem literalBody_of_spelled {content : List Char} (h : ∀ c ∈ content, isText c ∧ c ≠ '\'') :
    literalBody (content ++ '\'' :: rest) = some (content, rest) := by
  induction content with
  | nil => rfl
  | cons c content ih =>
    obtain ⟨hText, hQuote⟩ := h c (List.mem_cons_self ..)
    have hMore := ih fun d hMem => h d (List.mem_cons_of_mem _ hMem)
    rw [List.cons_append, literalBody, if_pos hText, hMore]
    · rfl
    · exact hQuote

/-- A key without quotes ends before the first character that none of its kind may have. -/
theorem bareKey_of_spelled (hName : name ≠ "") (hChars : ∀ c ∈ name.toList, isBareKeyChar c)
    (hStop : ∀ c ∈ rest.head?, isBareKeyChar c = false) :
    bareKey (name.toList ++ rest) = some (name, rest) := by
  rw [bareKey, Text.takeWhile_append_stop hChars hStop, Text.dropWhile_append_stop hChars hStop]
  simp [hName]

theorem exists_bareKeyChar (hName : name ≠ "") (hChars : ∀ c ∈ name.toList, isBareKeyChar c) :
    ∃ c tail, name.toList = c :: tail ∧ isBareKeyChar c := by
  cases hList : name.toList with
  | nil => exact absurd (String.toList_eq_nil_iff.1 hList) hName
  | cons c tail => exact ⟨c, tail, rfl, hChars c (hList ▸ List.mem_cons_self ..)⟩

/-- A key is read up to a character that is none of a bare key. -/
theorem key_of_spelled (h : SpellsKey key name)
    (hStop : ∀ c ∈ rest.head?, isBareKeyChar c = false) :
    (lineString (key ++ rest) <|> bareKey (key ++ rest)) = some (name, rest) := by
  cases h with
  | bare hName hChars =>
    have hLine : lineString (name.toList ++ rest) = none := by
      obtain ⟨c, tail, hList, hChar⟩ := exists_bareKeyChar hName hChars
      rw [hList]
      exact lineString_eq_none (ne_of_class hChar rfl) (ne_of_class hChar rfl)
    rw [hLine, bareKey_of_spelled hName hChars hStop]
    rfl
  | basic hString => rw [lineString_of_spelled hString]; rfl
  | literal hChars =>
    rw [List.cons_append, List.append_assoc, lineString, List.singleton_append,
      literalBody_of_spelled hChars]
    exact congrArg (fun s => some (s, rest)) String.ofList_toList

/-- The first character of a key is no blank, and begins no other line. -/
theorem SpellsKey.eq_cons (h : SpellsKey key name) :
    ∃ c tail, key = c :: tail ∧ isBlank c = false ∧ c ∉ ['[', '#', '\n', '\r'] := by
  cases h with
  | bare hName hChars =>
    obtain ⟨c, tail, hList, hChar⟩ := exists_bareKeyChar hName hChars
    have hOther : [' ', '\t', '[', '#', '\n', '\r'].all (isBareKeyChar · = false) := by decide
    have hNone : c ∉ [' ', '\t', '[', '#', '\n', '\r'] := fun hMem =>
      ne_of_class hChar (of_decide_eq_true (List.all_eq_true.1 hOther c hMem)) rfl
    refine ⟨c, tail, hList, ?_, ?_⟩
    · simp only [List.mem_cons, not_or] at hNone
      simp [isBlank, hNone]
    · exact fun hMem => hNone (List.mem_cons_of_mem _ (List.mem_cons_of_mem _ hMem))
  | basic hString =>
    cases hString with
    | quoted _ => exact ⟨'"', _, rfl, rfl, by decide⟩
  | literal _ => exact ⟨'\'', _, rfl, rfl, by decide⟩

/-- Blanks around a key are skipped, and what comes after them is left for the next
reader. -/
theorem keyPart_of_spelled {stop : Char} (hBefore : Blanks before) (hKey : SpellsKey key name)
    (hAfter : Blanks after) (hStop : stop ∈ ['=', ']']) :
    keyPart (before ++ key ++ after ++ stop :: rest) = some (name, stop :: rest) := by
  have hStops : GoesOn ['=', ']'] (stop :: rest) := by
    rintro c ⟨⟩
    exact hStop
  obtain ⟨c, tail, rfl, hBlank, -⟩ := hKey.eq_cons
  have hFirst : skipBlanks (before ++ (c :: tail ++ (after ++ stop :: rest))) =
      c :: tail ++ (after ++ stop :: rest) :=
    skipBlanks_append hBefore (by rintro d ⟨⟩; exact hBlank)
  rw [keyPart, List.append_assoc, List.append_assoc]
  simp only [hFirst, key_of_spelled hKey ((hAfter.goesOn hStops).forall (by decide)),
    skipBlanks_append hAfter (hStops.forall (by decide)), Option.bind_eq_bind, Option.bind_some]
  rfl

/-- A key with no dot behind it is a path of one part. -/
theorem keyPath_of_spelled {stop : Char} (hBefore : Blanks before) (hKey : SpellsKey key name)
    (hAfter : Blanks after) (hStop : stop ∈ ['=', ']']) :
    keyPath (before ++ key ++ after ++ stop :: rest) = some (⟨[], name⟩, stop :: rest) := by
  have hPart := @keyPart_of_spelled _ _ _ rest _ _ hBefore hKey hAfter hStop
  have hMore : many (fun cs => (char '.' cs).bind keyPart) (stop :: rest) = ([], stop :: rest) := by
    have hDot : '.' ≠ stop := by
      rintro rfl
      exact absurd hStop (by decide)
    apply many_of_eq_none
    rw [char, if_neg hDot]
    rfl
  have hParts : separated keyPart '.' (before ++ key ++ after ++ stop :: rest) =
      some ([name], stop :: rest) := by
    rw [separated, hPart]
    simp only [Option.bind_eq_bind, Option.bind_some, hMore]
    rfl
  rw [keyPath, hParts]
  rfl

end Keys

end NodeStore.Toml
