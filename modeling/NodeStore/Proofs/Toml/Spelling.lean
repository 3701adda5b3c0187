import Mathlib
import NodeStore.Toml.Document

/-!
The texts of plain TOML documents, independent of any reader: which texts spell
a value, a key, a line, and a document. Plain documents consist of headers of
tables and of assignments, all with keys of one part; the values are integers,
booleans and strings in double quotes. Everything else is free: blanks, comments
and empty lines, both kinds of line ends, quotes around keys, escapes, bases,
and underscores.

Main statement: there is a text for every row of statements whose integers are
not too large.
-/

namespace NodeStore.Toml

/-- A digit below a base; those above nine are letters of either case. -/
def SpellsDigit (base : Nat) (c : Char) (d : Nat) : Prop :=
  d < base ∧ (c = Nat.digitChar d ∨ c = (Nat.digitChar d).toUpper)

instance (base : Nat) (c : Char) (d : Nat) : Decidable (SpellsDigit base c d) :=
  inferInstanceAs (Decidable (_ ∧ _))

/-- Digits, one at least, with at most one underscore between each two. -/
inductive SpellsDigits (base : Nat) : (text : List Char) → (digits : List Nat) → Prop where
  | last {c : Char} {d : Nat} (hDigit : SpellsDigit base c d) : SpellsDigits base [c] [d]
  | next {c : Char} {d : Nat} {text : List Char} {digits : List Nat}
      (hDigit : SpellsDigit base c d) (hMore : SpellsDigits base text digits) :
      SpellsDigits base (c :: text) (d :: digits)
  | apart {c : Char} {d : Nat} {text : List Char} {digits : List Nat}
      (hDigit : SpellsDigit base c d) (hMore : SpellsDigits base text digits) :
      SpellsDigits base (c :: '_' :: text) (d :: digits)

/-- The number that digits stand for, the highest of which comes first. -/
def magnitude (base : Nat) (digits : List Nat) : Nat := Nat.ofDigits base digits.reverse

/-- What may stand before a decimal number, and the factor that it is. -/
inductive SpellsSign : (text : List Char) → (factor : Int) → Prop where
  | none : SpellsSign [] 1
  | plus : SpellsSign ['+'] 1
  | minus : SpellsSign ['-'] (-1)

/-- The letters that name another base than ten after a zero. -/
inductive MarksBase : (mark : Char) → (base : Nat) → Prop where
  | hexadecimal : MarksBase 'x' 16
  | octal : MarksBase 'o' 8
  | binary : MarksBase 'b' 2

/-- Decimal numbers may have a sign and no zeros in front, the others may have
zeros in front and no sign. -/
inductive SpellsInteger : (text : List Char) → Int → Prop where
  | decimal {sign text : List Char} {factor : Int} {digits : List Nat}
      (hSign : SpellsSign sign factor) (hDigits : SpellsDigits 10 text digits)
      (hLead : digits = [0] ∨ digits.head? ≠ some 0) :
      SpellsInteger (sign ++ text) (factor * magnitude 10 digits)
  | marked {mark : Char} {base : Nat} {text : List Char} {digits : List Nat}
      (hMark : MarksBase mark base) (hDigits : SpellsDigits base text digits) :
      SpellsInteger ('0' :: mark :: text) (magnitude base digits)

/-- Characters that a letter after a backslash stands for. -/
def shortEscapes : List (Char × Char) :=
  [('b', '\x08'), ('t', '\t'), ('n', '\n'), ('f', '\x0c'), ('r', '\r'), ('"', '"'), ('\\', '\\')]

/-- Letters that announce the number of a character, and how many digits of
base sixteen the number has. -/
def codeEscapes : List (Char × Nat) := [('u', 4), ('U', 8)]

/-- A character between double quotes: itself, where it may stand there, or an
escape. -/
inductive SpellsChar : (text : List Char) → Char → Prop where
  | itself {c : Char} (hText : isText c) (hQuote : c ≠ '"') (hBackslash : c ≠ '\\') :
      SpellsChar [c] c
  | short {letter c : Char} (hShort : (letter, c) ∈ shortEscapes) : SpellsChar ['\\', letter] c
  | code {letter c : Char} {count : Nat} {text : List Char} {digits : List Nat}
      (hCode : (letter, count) ∈ codeEscapes) (hCount : text.length = count)
      (hDigits : List.Forall₂ (SpellsDigit 16) text digits)
      (hChar : magnitude 16 digits = c.toNat) : SpellsChar ('\\' :: letter :: text) c

/-- What stands between double quotes. -/
inductive SpellsContent : (text content : List Char) → Prop where
  | nil : SpellsContent [] []
  | cons {part text content : List Char} {c : Char} (hChar : SpellsChar part c)
      (hMore : SpellsContent text content) : SpellsContent (part ++ text) (c :: content)

/-- A string in double quotes, on one line. -/
inductive SpellsString : (text : List Char) → String → Prop where
  | quoted {text : List Char} {s : String} (hContent : SpellsContent text s.toList) :
      SpellsString ('"' :: (text ++ ['"'])) s

/-- A key of one part: bare, in double quotes with escapes, or in single quotes
without any. -/
inductive SpellsKey : (text : List Char) → (name : String) → Prop where
  | bare {name : String} (hName : name ≠ "") (hChars : ∀ c ∈ name.toList, isBareKeyChar c) :
      SpellsKey name.toList name
  | basic {text : List Char} {name : String} (hName : SpellsString text name) : SpellsKey text name
  | literal {name : String} (hChars : ∀ c ∈ name.toList, isText c ∧ c ≠ '\'') :
      SpellsKey ('\'' :: (name.toList ++ ['\''])) name

/-- Integers must fit into 64 bits with a sign. -/
inductive SpellsValue : (text : List Char) → Value → Prop where
  | yes : SpellsValue "true".toList (.boolean true)
  | no : SpellsValue "false".toList (.boolean false)
  | string {text : List Char} {s : String} (hString : SpellsString text s) :
      SpellsValue text (.string s)
  | integer {text : List Char} {n : Int} (hInteger : SpellsInteger text n) (hLow : -2 ^ 63 ≤ n)
      (hHigh : n < 2 ^ 63) : SpellsValue text (.integer n)

/-- Blanks, or nothing. -/
def Blanks (text : List Char) : Prop := ∀ c ∈ text, isBlank c

/-- A comment, or nothing. -/
inductive Remark : (text : List Char) → Prop where
  | nothing : Remark []
  | comment {text : List Char} (hText : ∀ c ∈ text, isText c) : Remark ('#' :: text)

/-- A header of a table, or an assignment. -/
inductive SpellsStatement : (text : List Char) → Statement → Prop where
  | table {before key after : List Char} {name : String} (hBefore : Blanks before)
      (hKey : SpellsKey key name) (hAfter : Blanks after) :
      SpellsStatement ('[' :: (before ++ key ++ after ++ [']'])) (.table ⟨[], name⟩)
  | assignment {key before after text : List Char} {name : String} {v : Value}
      (hKey : SpellsKey key name) (hBefore : Blanks before) (hAfter : Blanks after)
      (hValue : SpellsValue text v) :
      SpellsStatement (key ++ before ++ '=' :: (after ++ text)) (.assignment ⟨[], name⟩ v)

/-- A line without its end: a statement or none, and a comment or none. -/
inductive SpellsLine : (text : List Char) → Option Statement → Prop where
  | empty {blanks remark : List Char} (hBlanks : Blanks blanks) (hRemark : Remark remark) :
      SpellsLine (blanks ++ remark) none
  | full {before text after remark : List Char} {s : Statement} (hBefore : Blanks before)
      (hStatement : SpellsStatement text s) (hAfter : Blanks after) (hRemark : Remark remark) :
      SpellsLine (before ++ text ++ after ++ remark) (some s)

/-- The end of a line. -/
inductive Break : (text : List Char) → Prop where
  | lf : Break ['\n']
  | crlf : Break ['\r', '\n']

/-- Lines, the last of which ends with the text. -/
inductive SpellsLines : (text : List Char) → List Statement → Prop where
  | last {text : List Char} {s : Option Statement} (hLine : SpellsLine text s) :
      SpellsLines text s.toList
  | next {text ending more : List Char} {s : Option Statement} {ss : List Statement}
      (hLine : SpellsLine text s) (hEnding : Break ending) (hMore : SpellsLines more ss) :
      SpellsLines (text ++ ending ++ more) (s.toList ++ ss)

/-- A document, which may begin with a byte order mark. -/
inductive SpellsDocument : (text : String) → List Statement → Prop where
  | unmarked {text : String} {ss : List Statement} (hLines : SpellsLines text.toList ss) :
      SpellsDocument text ss
  | marked {text : String} {lines : List Char} {ss : List Statement}
      (hText : text.toList = '\ufeff' :: lines) (hLines : SpellsLines lines ss) :
      SpellsDocument text ss

section Existence

variable {base : Nat}

theorem spellsDigit_digitChar {d : Nat} (h : d < base) : SpellsDigit base (Nat.digitChar d) d :=
  ⟨h, .inl rfl⟩

theorem spellsDigits_digitChar {d : Nat} {digits : List Nat} (h : ∀ e ∈ d :: digits, e < base) :
    SpellsDigits base ((d :: digits).map Nat.digitChar) (d :: digits) := by
  induction digits generalizing d with
  | nil => exact .last (spellsDigit_digitChar (h d (List.mem_cons_self ..)))
  | cons e digits ih =>
    have hFirst := spellsDigit_digitChar (h d (List.mem_cons_self ..))
    exact .next hFirst (ih fun f hMem => h f (List.mem_cons_of_mem _ hMem))

/-- The digits of a positive number, the first of which is not zero. -/
theorem exists_spellsDigits {n : Nat} (hPos : n ≠ 0) (hBase : 1 < base) :
    ∃ text digits, SpellsDigits base text digits ∧ digits.head? ≠ some 0 ∧
      magnitude base digits = n := by
  have hNil : Nat.digits base n ≠ [] := Nat.digits_ne_nil_iff_ne_zero.2 hPos
  have hHead : (Nat.digits base n).reverse.head? ≠ some 0 := by
    rw [List.head?_reverse, List.getLast?_eq_some_getLast hNil]
    exact fun h => Nat.getLast_digit_ne_zero base hPos (Option.some.inj h)
  have hDigits : ∀ d ∈ (Nat.digits base n).reverse, d < base :=
    fun d hMem => Nat.digits_lt_base hBase (List.mem_reverse.1 hMem)
  have hMagnitude : magnitude base (Nat.digits base n).reverse = n := by
    rw [magnitude, List.reverse_reverse, Nat.ofDigits_digits]
  cases hSplit : (Nat.digits base n).reverse with
  | nil => exact absurd (List.reverse_eq_nil_iff.1 hSplit) hNil
  | cons d digits =>
    rw [hSplit] at hHead hDigits hMagnitude
    exact ⟨_, _, spellsDigits_digitChar hDigits, hHead, hMagnitude⟩

theorem exists_spellsInteger (n : Int) : ∃ text, SpellsInteger text n := by
  have hDecimal : ∃ text digits, SpellsDigits 10 text digits ∧
      (digits = [0] ∨ digits.head? ≠ some 0) ∧ magnitude 10 digits = n.natAbs := by
    by_cases hZero : n.natAbs = 0
    · rw [hZero]
      exact ⟨_, [0], .last (spellsDigit_digitChar (by decide)), .inl rfl, rfl⟩
    · obtain ⟨text, digits, hDigits, hHead, hMagnitude⟩ :=
        exists_spellsDigits hZero (show 1 < 10 by decide)
      exact ⟨text, digits, hDigits, .inr hHead, hMagnitude⟩
  obtain ⟨text, digits, hDigits, hLead, hMagnitude⟩ := hDecimal
  have hNumber : ∃ sign factor, SpellsSign sign factor ∧ factor * magnitude 10 digits = n := by
    cases Int.le_total 0 n with
    | inl hPos => exact ⟨_, 1, .none, by omega⟩
    | inr hNeg => exact ⟨_, -1, .minus, by omega⟩
  obtain ⟨sign, factor, hSign, rfl⟩ := hNumber
  exact ⟨_, .decimal hSign hDigits hLead⟩

/-- Eight digits of base sixteen are enough for every character. -/
theorem exists_spellsChar (c : Char) : ∃ text, SpellsChar text c := by
  have hRange : c.toNat < 16 ^ 8 := c.val.toNat_lt
  let digits := (Nat.digitsAppend 16 8 c.toNat).reverse
  have hDigits : List.Forall₂ (SpellsDigit 16) (digits.map Nat.digitChar) digits := by
    rw [List.forall₂_map_left_iff, List.forall₂_same]
    exact fun d hMem => spellsDigit_digitChar
      (Nat.lt_of_mem_digitsAppend (by decide) 8 d (List.mem_reverse.1 hMem))
  have hCount : (digits.map Nat.digitChar).length = 8 := by
    rw [List.length_map, List.length_reverse, Nat.length_digitsAppend (by decide) 8 hRange]
  have hChar : magnitude 16 digits = c.toNat := by
    rw [magnitude, List.reverse_reverse, Nat.digitsAppend, Nat.ofDigits_append_replicate_zero,
      Nat.ofDigits_digits]
  exact ⟨_, .code (List.mem_cons_of_mem _ (List.mem_cons_self ..)) hCount hDigits hChar⟩

theorem exists_spellsString (s : String) : ∃ text, SpellsString text s := by
  have hContent (content : List Char) : ∃ text, SpellsContent text content := by
    induction content with
    | nil => exact ⟨_, .nil⟩
    | cons c content ih =>
      obtain ⟨part, hChar⟩ := exists_spellsChar c
      obtain ⟨text, hMore⟩ := ih
      exact ⟨_, .cons hChar hMore⟩
  obtain ⟨text, hText⟩ := hContent s.toList
  exact ⟨_, .quoted hText⟩

theorem exists_spellsBoolean (b : Bool) : ∃ text, SpellsValue text (.boolean b) := by
  cases b with
  | true => exact ⟨_, .yes⟩
  | false => exact ⟨_, .no⟩

theorem exists_spellsCount {n : Nat} (h : n < 2 ^ 63) : ∃ text, SpellsValue text (.integer n) := by
  obtain ⟨text, hText⟩ := exists_spellsInteger n
  exact ⟨text, .integer hText (by omega) (by exact_mod_cast h)⟩

theorem exists_spellsTable (name : String) : ∃ text, SpellsStatement text (.table ⟨[], name⟩) := by
  obtain ⟨key, hKey⟩ := exists_spellsString name
  exact ⟨_, @SpellsStatement.table [] key [] name (List.forall_mem_nil _) (.basic hKey)
    (List.forall_mem_nil _)⟩

theorem exists_spellsAssignment (name : String) {v : Value} (h : ∃ text, SpellsValue text v) :
    ∃ text, SpellsStatement text (.assignment ⟨[], name⟩ v) := by
  obtain ⟨key, hKey⟩ := exists_spellsString name
  obtain ⟨text, hValue⟩ := h
  exact ⟨_, @SpellsStatement.assignment key [] [] text name v (.basic hKey) (List.forall_mem_nil _)
    (List.forall_mem_nil _) hValue⟩

/-- Statements that have texts can be written one on a line. -/
theorem exists_spellsDocument {ss : List Statement} (h : ∀ s ∈ ss, ∃ text, SpellsStatement text s) :
    ∃ text, SpellsDocument text ss := by
  have hLines : ∃ text, SpellsLines text ss := by
    induction ss with
    | nil => exact ⟨_, .last (.empty (List.forall_mem_nil _) .nothing)⟩
    | cons s ss ih =>
      obtain ⟨text, hStatement⟩ := h s (List.mem_cons_self ..)
      obtain ⟨more, hMore⟩ := ih fun other hMem => h other (List.mem_cons_of_mem _ hMem)
      have hLine :=
        SpellsLine.full (List.forall_mem_nil _) hStatement (List.forall_mem_nil _) .nothing
      exact ⟨_, .next hLine .lf hMore⟩
  obtain ⟨text, hText⟩ := hLines
  exact ⟨String.ofList text, .unmarked (by rwa [String.toList_ofList])⟩

end Existence

end NodeStore.Toml
