import NodeStore.Proofs.Toml.Outline
import NodeStore.Settings.Document

/-!
Settings round trip through documents: however a document writes settings, they
are read back and validated.
-/

namespace NodeStore

open Toml (Value Entries Outline SpellsDocument SpellsValue)

/-- Whether entries give a value to a name, or leave the name out where the value
is the default anyway. -/
def Gives (entries : Entries) (name : String) (value : Value) (isDefault : Prop) : Prop :=
  entries.lookup name = some value ∨ isDefault ∧ entries.lookup name = none

/-- Entries for the settings of a cache. Entries with other names do not matter, and
a cache without a bound has no entry for it. -/
structure CacheSettings.WrittenAs (settings : CacheSettings) (entries : Entries) : Prop where
  maxCapacity : entries.lookup "max_capacity" = settings.maxCapacity.map fun n => .integer n
  flushSource : Gives entries "flush_source" (.boolean settings.flushSource)
    (settings.flushSource = false)

/-- Entries for the settings of a store: a path, and a size unless it is the default
one. -/
structure LmdbSettings.WrittenAs (settings : LmdbSettings) (entries : Entries) : Prop where
  path : entries.lookup "path" = some (.string settings.path)
  maxSizeMb : Gives entries "max_size_mb" (.integer settings.maxSizeMb) (settings.maxSizeMb = 1024)

/-- An outline with a table for the cache, which may be missing if all of its
settings are the default ones, and with a table for the environment if there is
one. Other entries and tables do not matter. -/
structure Settings.WrittenAs (settings : Settings) (outline : Outline) : Prop where
  root : outline.root.lookup "cache" = none ∧ outline.root.lookup "lmdb" = none
  cache : (outline.tables.lookup "cache").elim (settings.cache = {}) settings.cache.WrittenAs
  lmdb : Option.Rel LmdbSettings.WrittenAs settings.lmdb (outline.tables.lookup "lmdb")

/-- Documents that write settings: any text of such an outline, with the tables and
their entries in any order, in which no name stands twice. -/
def Settings.WrittenIn (settings : Settings) (text : String) : Prop :=
  ∃ outline : Outline, outline.Distinct ∧ settings.WrittenAs outline ∧
    SpellsDocument text outline.statements

/-- Whether all numbers fit into a document. -/
def Settings.Fits (settings : Settings) : Prop :=
  (∀ n ∈ settings.cache.maxCapacity, n < 2 ^ 63) ∧ ∀ lmdb ∈ settings.lmdb, lmdb.maxSizeMb < 2 ^ 63

section Reading

/-- A setting is read from its entry, or taken to be the default if it has none. -/
theorem settingOr_of_gives {α : Type} {default value : α} {read : Value → Option α}
    {entries : Entries} {name : String} {v : Value} {isDefault : Prop} (h : Gives entries name v isDefault)
    (hRead : read v = some value) (hDefault : isDefault → value = default) :
    settingOr default read (entries.lookup name) = some value := by
  rcases h with hGiven | ⟨hIs, hMissing⟩
  · rw [hGiven]
    exact hRead
  · rw [hMissing, hDefault hIs]
    rfl

theorem countOfValue_natCast (n : Nat) : countOfValue (.integer n) = some n := by
  rw [countOfValue, if_pos (Int.natCast_nonneg n), Int.toNat_natCast]

/-- The table of a cache is read as the settings that it is written for. -/
theorem CacheSettings.WrittenAs.ofValue {settings : CacheSettings} {entries : Entries}
    (h : settings.WrittenAs entries) :
    CacheSettings.ofValue (.table .header entries) = some settings := by
  have hCapacity : settingOr none (fun v => (countOfValue v).map some)
      (entries.lookup "max_capacity") = some settings.maxCapacity := by
    rw [h.maxCapacity]
    cases settings.maxCapacity with
    | none => rfl
    | some n => exact congrArg (Option.map some) (countOfValue_natCast n)
  have hFlush : settingOr false flagOfValue (entries.lookup "flush_source") =
      some settings.flushSource := settingOr_of_gives h.flushSource rfl id
  exact Option.bind_eq_some_iff.2 ⟨_, hCapacity, Option.bind_eq_some_iff.2 ⟨_, hFlush, rfl⟩⟩

/-- So is the table of a store. -/
theorem LmdbSettings.WrittenAs.ofValue {settings : LmdbSettings} {entries : Entries}
    (h : settings.WrittenAs entries) :
    LmdbSettings.ofValue (.table .header entries) = some settings := by
  have hPath : (entries.lookup "path").bind textOfValue = some settings.path := by
    rw [h.path]
    rfl
  have hSize : settingOr 1024 countOfValue (entries.lookup "max_size_mb") =
      some settings.maxSizeMb :=
    settingOr_of_gives h.maxSizeMb (countOfValue_natCast settings.maxSizeMb) id
  exact Option.bind_eq_some_iff.2 ⟨_, hPath, Option.bind_eq_some_iff.2 ⟨_, hSize, rfl⟩⟩

/-- A name that is none at the root is found among the tables. -/
theorem lookup_entries {outline : Outline} {name : String} (hRoot : outline.root.lookup name = none) :
    outline.entries.lookup name = (outline.tables.lookup name).map (Value.table .header) := by
  rw [Outline.entries, List.lookup_append, hRoot, Option.none_or]
  induction outline.tables with
  | nil => rfl
  | cons table tables ih =>
    rw [List.map_cons, List.lookup_cons, List.lookup_cons, ih]
    cases name == table.1 <;> rfl

/-- All settings are read from an outline that is written for them. -/
theorem Settings.WrittenAs.ofEntries {settings : Settings} {outline : Outline}
    (h : settings.WrittenAs outline) : Settings.ofEntries outline.entries = some settings := by
  obtain ⟨⟨hNoCache, hNoLmdb⟩, hCache, hLmdb⟩ := h
  have hCacheRead : settingOr {} CacheSettings.ofValue (outline.entries.lookup "cache") =
      some settings.cache := by
    rw [lookup_entries hNoCache]
    cases hTable : outline.tables.lookup "cache" with
    | none =>
      rw [hTable] at hCache
      exact congrArg some hCache.symm
    | some entries =>
      rw [hTable] at hCache
      exact CacheSettings.WrittenAs.ofValue hCache
  have hLmdbRead : settingOr none (fun v => (LmdbSettings.ofValue v).map some)
      (outline.entries.lookup "lmdb") = some settings.lmdb := by
    rw [lookup_entries hNoLmdb]
    generalize outline.tables.lookup "lmdb" = table at hLmdb
    generalize settings.lmdb = lmdb at hLmdb
    cases hLmdb with
    | none => rfl
    | some hWritten => exact congrArg (Option.map some) hWritten.ofValue
  exact Option.bind_eq_some_iff.2 ⟨_, hCacheRead, Option.bind_eq_some_iff.2 ⟨_, hLmdbRead, rfl⟩⟩

/-- Settings that were read are given out once they are validated. -/
theorem parse_of_ofEntries {settings : Settings} {text : String} {entries : Entries}
    (hText : Toml.parse text = some entries)
    (hEntries : Settings.ofEntries entries = some settings) :
    Settings.parse text = settings.validate.map fun _ => settings := by
  rw [Settings.parse, hText, Option.bind_some, hEntries]
  cases hValid : settings.validate with
  | error cause => simp only [hValid, Except.map]
  | ok _ => simp only [hValid, Except.map]

end Reading

section Writing

def CacheSettings.entries (settings : CacheSettings) : Entries :=
  (settings.maxCapacity.toList.map fun n => ("max_capacity", .integer n)) ++
    [("flush_source", .boolean settings.flushSource)]

def LmdbSettings.entries (settings : LmdbSettings) : Entries :=
  [("path", .string settings.path), ("max_size_mb", .integer settings.maxSizeMb)]

/-- The outline that leaves nothing out but what is not set. -/
def Settings.outline (settings : Settings) : Outline where
  tables := ("cache", settings.cache.entries) ::
    settings.lmdb.toList.map fun lmdb => ("lmdb", lmdb.entries)

theorem Settings.distinct_outline (settings : Settings) : settings.outline.Distinct := by
  obtain ⟨⟨maxCapacity, flushSource⟩, lmdb⟩ := settings
  cases maxCapacity <;> cases lmdb <;>
    simp [outline, Outline.Distinct, Outline.entries, CacheSettings.entries, LmdbSettings.entries]

theorem Settings.writtenAs_outline (settings : Settings) : settings.WrittenAs settings.outline := by
  obtain ⟨⟨maxCapacity, flushSource⟩, lmdb⟩ := settings
  refine ⟨⟨rfl, rfl⟩, ⟨?_, ?_⟩, ?_⟩
  · cases maxCapacity <;> rfl
  · exact .inl (by cases maxCapacity <;> rfl)
  · cases lmdb with
    | none => exact .none
    | some lmdb => exact .some ⟨rfl, .inl rfl⟩

theorem CacheSettings.exists_spellsValue {settings : CacheSettings}
    (h : ∀ n ∈ settings.maxCapacity, n < 2 ^ 63) :
    ∀ entry ∈ settings.entries, ∃ text, SpellsValue text entry.2 := by
  rw [entries, List.forall_mem_append, List.forall_mem_singleton]
  refine ⟨?_, Toml.exists_spellsBoolean settings.flushSource⟩
  intro entry hMem
  obtain ⟨n, hGiven, rfl⟩ := List.mem_map.1 hMem
  exact Toml.exists_spellsCount (h n (Option.mem_toList.1 hGiven))

theorem LmdbSettings.exists_spellsValue {settings : LmdbSettings}
    (h : settings.maxSizeMb < 2 ^ 63) :
    ∀ entry ∈ settings.entries, ∃ text, SpellsValue text entry.2 := by
  rw [entries, List.forall_mem_cons, List.forall_mem_singleton]
  obtain ⟨text, hText⟩ := Toml.exists_spellsString settings.path
  exact ⟨⟨text, .string hText⟩, Toml.exists_spellsCount h⟩

/-- There is a text for all settings whose numbers fit into one. -/
theorem Settings.exists_writtenIn {settings : Settings} (h : settings.Fits) :
    ∃ text, settings.WrittenIn text := by
  obtain ⟨hCapacity, hSize⟩ := h
  have hTables : ∀ table ∈ settings.outline.tables, ∀ entry ∈ table.2,
      ∃ text, SpellsValue text entry.2 := by
    refine List.forall_mem_cons.2 ⟨CacheSettings.exists_spellsValue hCapacity, ?_⟩
    intro table hMem
    obtain ⟨lmdb, hGiven, rfl⟩ := List.mem_map.1 hMem
    exact LmdbSettings.exists_spellsValue (hSize lmdb (Option.mem_toList.1 hGiven))
  obtain ⟨text, hText⟩ := Outline.exists_spellsDocument (List.forall_mem_nil _) hTables
  exact ⟨text, settings.outline, settings.distinct_outline, settings.writtenAs_outline, hText⟩

end Writing

/-- Settings whose numbers fit are written by some document, and every document
that writes them gives them back if they are valid, and otherwise the error of
their validation. -/
theorem Settings.documents_read_back (settings : Settings) (hFits : settings.Fits) :
    (∃ text, settings.WrittenIn text) ∧
      ∀ text, settings.WrittenIn text →
        Settings.parse text = settings.validate.map fun _ => settings := by
  refine ⟨exists_writtenIn hFits, ?_⟩
  rintro text ⟨outline, hDistinct, hWritten, hText⟩
  exact parse_of_ofEntries (Toml.parse_of_outline hDistinct hText) hWritten.ofEntries

/-- A document with its tables in the other order, a default left out, a further
entry, a comment, both kinds of line ends and an escape. -/
theorem Settings.documents_read_back_reordered :
    Settings.parse "[lmdb]\npath = \"a\\u00e9\"\r\n[ cache ]#\nn=-0\nmax_capacity=0x0_a" =
      .ok { cache := { maxCapacity := some 10 }, lmdb := some { path := "aé" } } := by
  have hFits : Settings.Fits ⟨{ maxCapacity := some 10 }, some { path := "aé" }⟩ := by
    constructor
    · rintro n ⟨⟩
      decide
    · rintro lmdb ⟨⟩
      decide
  have hNil : Toml.Blanks [] := List.forall_mem_nil _
  have hBlank : Toml.Blanks [' '] := List.forall_mem_singleton.2 rfl
  have hKey (name : String) (hName : name ≠ "") (hChars : name.toList.all Toml.isBareKeyChar) :
      Toml.SpellsKey name.toList name := .bare hName (List.all_eq_true.1 hChars)
  have hPath : SpellsValue "\"a\\u00e9\"".toList (.string "aé") := by
    have hDigits : List.Forall₂ (Toml.SpellsDigit 16) ['0', '0', 'e', '9'] [0, 0, 14, 9] := by
      decide
    have hEscape : Toml.SpellsChar ['\\', 'u', '0', '0', 'e', '9'] 'é' :=
      .code (by decide) rfl hDigits rfl
    have hPlain : Toml.SpellsChar ['a'] 'a' := .itself rfl (by decide) (by decide)
    exact .string (@Toml.SpellsString.quoted _ "aé" (.cons hPlain (.cons hEscape .nil)))
  have hZero : SpellsValue "-0".toList (.integer 0) := by
    have hDigits : Toml.SpellsDigits 10 ['0'] [0] := .last (by decide)
    exact .integer (.decimal .minus hDigits (.inl rfl)) (by decide) (by decide)
  have hTen : SpellsValue "0x0_a".toList (.integer 10) := by
    have hDigits : Toml.SpellsDigits 16 ['0', '_', 'a'] [0, 10] :=
      .apart (by decide) (.last (by decide))
    exact .integer (.marked .hexadecimal hDigits) (by decide) (by decide)
  have hLmdb : Toml.SpellsLine "[lmdb]".toList (some (.table ⟨[], "lmdb"⟩)) :=
    @Toml.SpellsLine.full [] _ [] [] _ hNil
      (.table hNil (hKey "lmdb" (by decide) (by decide)) hNil) hNil .nothing
  have hPathLine : Toml.SpellsLine "path = \"a\\u00e9\"".toList
      (some (.assignment ⟨[], "path"⟩ (.string "aé"))) :=
    @Toml.SpellsLine.full [] _ [] [] _ hNil
      (.assignment (hKey "path" (by decide) (by decide)) hBlank hBlank hPath) hNil .nothing
  have hCache : Toml.SpellsLine "[ cache ]#".toList (some (.table ⟨[], "cache"⟩)) :=
    @Toml.SpellsLine.full [] _ [] ['#'] _ hNil
      (.table hBlank (hKey "cache" (by decide) (by decide)) hBlank) hNil (.comment (List.forall_mem_nil _))
  have hSpare : Toml.SpellsLine "n=-0".toList (some (.assignment ⟨[], "n"⟩ (.integer 0))) :=
    @Toml.SpellsLine.full [] _ [] [] _ hNil
      (.assignment (hKey "n" (by decide) (by decide)) hNil hNil hZero) hNil .nothing
  have hCapacity : Toml.SpellsLine "max_capacity=0x0_a".toList
      (some (.assignment ⟨[], "max_capacity"⟩ (.integer 10))) :=
    @Toml.SpellsLine.full [] _ [] [] _ hNil
      (.assignment (hKey "max_capacity" (by decide) (by decide)) hNil hNil hTen) hNil .nothing
  have hLines := Toml.SpellsLines.next hLmdb .lf
    (.next hPathLine .crlf (.next hCache .lf (.next hSpare .lf (.last hCapacity))))
  refine (documents_read_back _ hFits).2 _ ⟨⟨[], [("lmdb", [("path", .string "aé")]),
    ("cache", [("n", .integer 0), ("max_capacity", .integer 10)])]⟩, ?_, ?_, .unmarked hLines⟩
  · constructor <;> decide
  · exact ⟨⟨rfl, rfl⟩, ⟨rfl, .inr ⟨rfl, rfl⟩⟩, .some ⟨rfl, .inr ⟨rfl, rfl⟩⟩⟩

end NodeStore
