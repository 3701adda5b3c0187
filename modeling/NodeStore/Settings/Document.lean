import NodeStore.Settings
import NodeStore.Toml.Document

/-!
Settings in a TOML document. Entries with other names are skipped, missing
ones take their default. A group of settings is a table, or an array of their
values in order; a date counts as a table without any of the names.
-/

namespace NodeStore

open Toml (Value Entries)

/-- The values of a group by name and by place. -/
inductive SettingsGroup where
  | named (entries : Entries)
  | listed (values : List Value)

namespace SettingsGroup

def ofValue : Value → Option SettingsGroup
  | .table _ entries => some (.named entries)
  | .array elements => some (.listed elements)
  | .tables elements => some (.listed (elements.map (.table .header)))
  | .dateTime _ => some (.named [])
  | _ => none

/-- The value of one setting, if it is given. -/
def value? (group : SettingsGroup) (name : String) (place : Nat) : Option Value :=
  match group with
  | .named entries => entries.lookup name
  | .listed values => values[place]?

end SettingsGroup

def countOfValue : Value → Option Nat
  | .integer n => if 0 ≤ n then some n.toNat else none
  | _ => none

def flagOfValue : Value → Option Bool
  | .boolean b => some b
  | _ => none

def textOfValue : Value → Option String
  | .string s => some s
  | _ => none

/-- A setting that may be missing; given, it must be of the right kind. -/
def settingOr {α : Type} (default : α) (read : Value → Option α) : Option Value → Option α
  | none => some default
  | some value => read value

def CacheSettings.ofValue (value : Value) : Option CacheSettings := do
  let group ← SettingsGroup.ofValue value
  let maxCapacity ←
    settingOr none (fun v => (countOfValue v).map some) (group.value? "max_capacity" 0)
  let flushSource ← settingOr false flagOfValue (group.value? "flush_source" 1)
  return { maxCapacity, flushSource }

/-- Settings of an LMDB environment; the path must be given. -/
def LmdbSettings.ofValue (value : Value) : Option LmdbSettings := do
  let group ← SettingsGroup.ofValue value
  let path ← (group.value? "path" 0).bind textOfValue
  let maxSizeMb ← settingOr ({ path } : LmdbSettings).maxSizeMb countOfValue
    (group.value? "max_size_mb" 1)
  return { path, maxSizeMb }

def Settings.ofEntries (entries : Entries) : Option Settings := do
  let cache ← settingOr {} CacheSettings.ofValue (entries.lookup "cache")
  let lmdb ← settingOr none (fun v => (LmdbSettings.ofValue v).map some) (entries.lookup "lmdb")
  return { cache, lmdb }

def unreadableSettings : Error :=
  .config (.parse "the document is not valid TOML, or a setting is missing or of the wrong kind")

/-- Reads settings from a document and validates them. -/
def Settings.parse (text : String) : Except Error Settings :=
  match (Toml.parse text).bind Settings.ofEntries with
  | none => .error unreadableSettings
  | some settings =>
      match settings.validate with
      | .error cause => .error cause
      | .ok () => .ok settings

end NodeStore
