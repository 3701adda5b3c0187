import Mathlib
import NodeStore.Cache.ReadCache
import NodeStore.Lmdb.Volume
import NodeStore.Settings.Document

/-!
What validation is good for. Valid settings can be used as they stand: no bound is
dropped, and no size is refused later on. Invalid ones are refused again by
whatever is set up from them, before anything has been changed.
-/

namespace NodeStore

open Lmdb (Volume)

/-- What settings must be like to be used. -/
structure Settings.Usable (settings : Settings) : Prop where
  maxCapacity : settings.cache.maxCapacity ≠ some 0
  maxSizeMb : ∀ lmdb ∈ settings.lmdb, 1 ≤ lmdb.maxSizeMb ∧ lmdb.maxSizeMb ≤ 2 ^ 44 - 1
  path : ∀ lmdb ∈ settings.lmdb, lmdb.path ≠ ""

/-! ### Flaws in the order in which they are reported -/

def CacheSettings.flaws (settings : CacheSettings) : List Error :=
  if settings.maxCapacity = some 0 then [zeroCapacity] else []

def LmdbSettings.flaws (settings : LmdbSettings) : List Error :=
  (if settings.maxSizeMb = 0 then [zeroSize] else []) ++
    (if 2 ^ 44 ≤ settings.maxSizeMb then [overflowingSize settings.maxSizeMb] else []) ++
    if settings.path = "" then [emptyPath] else []

/-- All that is wrong with settings. -/
def Settings.flaws (settings : Settings) : List Error :=
  settings.cache.flaws ++ settings.lmdb.elim [] LmdbSettings.flaws

/-- Fails with the first of some flaws. -/
def reportFirst : List Error → Except Error Unit
  | [] => .ok ()
  | flaw :: _ => .error flaw

theorem reportFirst_eq_ok_iff {flaws : List Error} : reportFirst flaws = .ok () ↔ flaws = [] := by
  cases flaws with
  | nil => exact iff_of_true rfl rfl
  | cons flaw flaws => exact iff_of_false (by rintro ⟨⟩) (List.cons_ne_nil flaw flaws)

theorem LmdbSettings.mapSizeBytes_eq (settings : LmdbSettings) :
    settings.mapSizeBytes =
      if settings.maxSizeMb < 2 ^ 44 then some (settings.maxSizeMb * 2 ^ 20) else none := by
  have hMegabyte : bytesPerMegabyte = 2 ^ 20 := by decide
  have hLimit : sizeLimit = 2 ^ 20 * 2 ^ 44 := by decide
  have hCounted : 2 ^ 20 * settings.maxSizeMb < 2 ^ 20 * 2 ^ 44 ↔ settings.maxSizeMb < 2 ^ 44 :=
    Nat.mul_lt_mul_left (by decide)
  simp only [mapSizeBytes, hMegabyte, hLimit, hCounted]
  rw [Nat.mul_comm]

theorem CacheSettings.validate_eq (settings : CacheSettings) :
    settings.validate = reportFirst settings.flaws := by
  rw [validate, flaws]
  split <;> rfl

theorem LmdbSettings.validate_eq (settings : LmdbSettings) :
    settings.validate = reportFirst settings.flaws := by
  have hCounted : settings.mapSizeBytes = none ↔ 2 ^ 44 ≤ settings.maxSizeMb := by
    rw [mapSizeBytes_eq, ite_eq_right_iff, ← not_lt]
    exact ⟨fun h hLt => Option.some_ne_none _ (h hLt), fun h hLt => absurd hLt h⟩
  rw [validate, flaws]
  split
  · rfl
  · split
    · next hOverflow =>
        rw [if_pos (hCounted.1 hOverflow)]
        rfl
    · next hCountable =>
        rw [if_neg (mt hCounted.2 hCountable)]
        split <;> rfl

/-- Validation reports the first flaw, those of the cache before those of the store. -/
theorem Settings.validate_eq (settings : Settings) :
    settings.validate = reportFirst settings.flaws := by
  rw [validate, CacheSettings.validate_eq, flaws]
  cases settings.cache.flaws with
  | cons flaw flaws => rfl
  | nil =>
      cases settings.lmdb with
      | none => rfl
      | some lmdb => exact lmdb.validate_eq

/-- The settings without a flaw are those that can be used. -/
theorem Settings.flaws_eq_nil_iff {settings : Settings} :
    settings.flaws = [] ↔ settings.Usable := by
  have hSize (lmdb : LmdbSettings) : ¬lmdb.maxSizeMb = 0 ∧ ¬2 ^ 44 ≤ lmdb.maxSizeMb ↔
      1 ≤ lmdb.maxSizeMb ∧ lmdb.maxSizeMb ≤ 2 ^ 44 - 1 := by omega
  have hLmdb (lmdb : LmdbSettings) : lmdb.flaws = [] ↔
      (1 ≤ lmdb.maxSizeMb ∧ lmdb.maxSizeMb ≤ 2 ^ 44 - 1) ∧ lmdb.path ≠ "" := by
    rw [← hSize, LmdbSettings.flaws]
    simp only [List.append_eq_nil_iff, ite_eq_right_iff, reduceCtorEq, imp_false, ne_eq]
  rw [flaws, List.append_eq_nil_iff, CacheSettings.flaws, ite_eq_right_iff]
  constructor
  · rintro ⟨hCapacity, hOther⟩
    have hOther (lmdb : LmdbSettings) (hSome : lmdb ∈ settings.lmdb) := by
      rw [Option.mem_def.1 hSome] at hOther
      exact (hLmdb lmdb).1 hOther
    exact ⟨fun hZero => List.cons_ne_nil _ _ (hCapacity hZero), fun lmdb h => (hOther lmdb h).1,
      fun lmdb h => (hOther lmdb h).2⟩
  · rintro ⟨hCapacity, hMaxSize, hPath⟩
    refine ⟨fun hZero => absurd hZero hCapacity, ?_⟩
    cases hSome : settings.lmdb with
    | none => rfl
    | some lmdb => exact (hLmdb lmdb).2 ⟨hMaxSize lmdb hSome, hPath lmdb hSome⟩

theorem Settings.validate_eq_ok_iff {settings : Settings} :
    settings.validate = .ok () ↔ settings.Usable := by
  rw [validate_eq, reportFirst_eq_ok_iff, flaws_eq_nil_iff]

theorem LmdbSettings.validate_of_usable {settings : Settings} (h : settings.Usable)
    {lmdb : LmdbSettings} (hSome : lmdb ∈ settings.lmdb) : lmdb.validate = .ok () := by
  have hFlaws := (List.append_eq_nil_iff.1 (Settings.flaws_eq_nil_iff.2 h)).2
  rw [Option.mem_def.1 hSome] at hFlaws
  rw [validate_eq, reportFirst_eq_ok_iff]
  exact hFlaws

theorem Settings.validate_of_parse {settings : Settings} {text : String}
    (h : Settings.parse text = .ok settings) : settings.validate = .ok () := by
  rw [parse] at h
  split at h
  · cases h
  · split at h
    · cases h
    · next hValid =>
        obtain rfl := Except.ok.inj h
        exact hValid

namespace ReadCache

variable {κ υ : Type}

theorem ofSettings_of_error {settings : CacheSettings} {cause : Error}
    (h : settings.validate = .error cause) :
    (ofSettings settings : Except Error (ReadCache κ υ)) = .error cause := by
  rw [ofSettings, h]
  rfl

/-- A cache is set up with the bound that is asked for. -/
theorem exists_ofSettings {settings : CacheSettings} (h : settings.maxCapacity ≠ some 0) :
    ∃ cache : ReadCache κ υ, ofSettings settings = .ok cache ∧
      cache.maxCapacity.map Capacity.count = settings.maxCapacity ∧
      cache.flushSource = settings.flushSource := by
  have hValid : settings.validate = .ok () := if_neg h
  rw [ofSettings, hValid]
  cases hCapacity : settings.maxCapacity with
  | none =>
      have hUnbounded : settings.capacity = none := by rw [CacheSettings.capacity, hCapacity]; rfl
      rw [hUnbounded]
      exact ⟨_, rfl, rfl, rfl⟩
  | some count =>
      have hCount : 0 < count := Nat.pos_of_ne_zero fun hZero => h (hZero ▸ hCapacity)
      have hBounded : settings.capacity = some ⟨count, hCount⟩ := by
        rw [CacheSettings.capacity, hCapacity, Option.bind_some, Capacity.ofNat?, dif_pos hCount]
      rw [hBounded]
      exact ⟨_, rfl, rfl, rfl⟩

end ReadCache

namespace Lmdb.Volume

variable {here : Place} {volume : Volume here} {path : String} {size : Nat}

theorem countBytes_eq (maxSizeMb : Nat) :
    countBytes maxSizeMb = if maxSizeMb < 2 ^ 44 then some (maxSizeMb * 2 ^ 20) else none :=
  LmdbSettings.mapSizeBytes_eq { path := "", maxSizeMb }

theorem openPath_of_uncountable {maxSizeMb : Nat} (h : 2 ^ 44 ≤ maxSizeMb) (path : String)
    (volume : Volume here) :
    volume.openPath path maxSizeMb = (.error (overflowingSize maxSizeMb), volume) := by
  rw [openPath, countBytes_eq, if_neg (Nat.not_lt.2 h)]

/-- Once its settings are valid, an environment is opened with the size they
give. -/
theorem openSettings_of_valid {settings : LmdbSettings} (hValid : settings.validate = .ok ())
    (hSize : settings.maxSizeMb < 2 ^ 44) (volume : Volume here) :
    volume.openSettings settings =
      ((volume.openSized settings.path (settings.maxSizeMb * 2 ^ 20)).1.mapError LmdbError.toError,
        (volume.openSized settings.path (settings.maxSizeMb * 2 ^ 20)).2) := by
  rw [openSettings, hValid, openPath, countBytes_eq, if_pos hSize]

/-- What can go wrong once the size of an environment is known. -/
inductive SizedFailure : LmdbError → Prop where
  | makeDirectories (cause : FileError) : SizedFailure (.io cause.message)
  | file (cause : FileError) : SizedFailure (cannotOpen cause)
  | invalidFile : SizedFailure invalidFile
  | outOfMemory : SizedFailure outOfMemory
  | differentOptions : SizedFailure differentOptions

/-- Files fail to open for one of these causes. -/
theorem sizedFailure_of_openFiles {directory : Place} {tree after : FileTree here Content}
    {failure : LmdbError} (h : openFiles directory size tree = (.error failure, after)) :
    SizedFailure failure := by
  rw [openFiles] at h
  split at h
  · obtain ⟨⟨⟩, -⟩ := Prod.mk.inj h
    exact .file _
  · split at h
    · obtain ⟨⟨⟩, -⟩ := Prod.mk.inj h
      exact .file _
    · simp only at h
      split at h
      · obtain ⟨⟨⟩, -⟩ := Prod.mk.inj h
        exact .file _
      · obtain ⟨⟨⟩, -⟩ := Prod.mk.inj h
        exact .invalidFile
      · obtain ⟨hResult, -⟩ := Prod.mk.inj h
        rcases ite_eq_iff.1 hResult with ⟨-, hFailure⟩ | ⟨-, hOk⟩
        · obtain rfl := Except.error.inj hFailure
          exact .outOfMemory
        · cases hOk

/-- So does a directory. -/
theorem sizedFailure_of_openDirectory {directory : Place} {failure : LmdbError}
    {after : Volume here} (h : volume.openDirectory directory size = (.error failure, after)) :
    SizedFailure failure := by
  rw [openDirectory] at h
  split at h
  · obtain ⟨hResult, -⟩ := Prod.mk.inj h
    split at hResult
    · cases hResult
    · cases hResult
      exact .differentOptions
  · split at h
    · next hFiles =>
        obtain ⟨⟨⟩, -⟩ := Prod.mk.inj h
        exact sizedFailure_of_openFiles hFiles
    · cases h

theorem sizedFailure_of_openSized {failure : LmdbError} {after : Volume here}
    (h : volume.openSized path size = (.error failure, after)) : SizedFailure failure := by
  rw [openSized] at h
  split at h
  · obtain ⟨⟨⟩, -⟩ := Prod.mk.inj h
    exact .makeDirectories _
  · split at h
    · obtain ⟨⟨⟩, -⟩ := Prod.mk.inj h
      exact .file _
    · exact sizedFailure_of_openDirectory h

/-- A failure of the store is never reported as one of the configuration. -/
theorem toError_ne_config (failure : LmdbError) (cause : ConfigError) :
    failure.toError ≠ .config cause := by
  cases failure <;> exact (nomatch ·)

/-- A text that starts otherwise is not about a size that cannot be counted. -/
theorem envOpen_ne_overflowingSize {text : String}
    (h : "map size of ".toList.isPrefixOf text.toList = false) (maxSizeMb : Nat) :
    (LmdbError.envOpen text).toError ≠ (overflowingSize maxSizeMb).toError := by
  intro hEq
  have hMessage := (StorageError.backend.inj (Error.storage.inj hEq)).2
  have hText := (String.append_right_inj _).1 hMessage
  apply Bool.eq_false_iff.1 h
  rw [List.isPrefixOf_iff_prefix, hText, String.toList_append, String.toList_append,
    List.append_assoc]
  exact List.prefix_append _ _

/-- Nothing that goes wrong once the size is known reads like a size that cannot be
counted. -/
theorem SizedFailure.toError_ne_overflowingSize {failure : LmdbError} (h : SizedFailure failure)
    (maxSizeMb : Nat) : failure.toError ≠ (overflowingSize maxSizeMb).toError := by
  cases h with
  | makeDirectories cause => exact (nomatch ·)
  | file cause => cases cause <;> exact envOpen_ne_overflowingSize rfl maxSizeMb
  | invalidFile | outOfMemory | differentOptions => exact envOpen_ne_overflowingSize rfl maxSizeMb

/-- The environment in which a source was opened has the size that was asked
for. -/
theorem requestedSize_of_openSized {directory : Place} {after : Volume here}
    (h : volume.openSized path size = (.ok directory, after)) :
    ∃ opened, after.opened.get? directory = some opened ∧ opened.requestedSize = size := by
  rw [openSized] at h
  split at h
  · cases h
  · split at h
    · cases h
    · rw [openDirectory] at h
      split at h
      · next opened hOpened =>
          obtain ⟨hResult, rfl⟩ := Prod.mk.inj h
          split at hResult
          · next hSame =>
              obtain rfl := Except.ok.inj hResult
              exact ⟨opened, hOpened, hSame⟩
          · cases hResult
      · split at h
        · cases h
        · next mapSize tree hFiles =>
            obtain ⟨⟨⟩, rfl⟩ := Prod.mk.inj h
            refine ⟨⟨size, { mapSize }⟩, ?_, rfl⟩
            rw [Table.get?_insert, if_pos rfl]

/-- What comes out of opening an environment with a size that is known: it is open
with that size, or the failure is no matter of its settings. -/
theorem openSized_cases (path : String) (size : Nat) (volume : Volume here) :
    let sized := volume.openSized path size
    let answer := sized.1.mapError LmdbError.toError
    (∀ directory, answer = .ok directory →
      ∃ opened, sized.2.opened.get? directory = some opened ∧ opened.requestedSize = size) ∧
    ∀ cause, answer = .error cause →
      (∀ invalid, cause ≠ .config invalid) ∧
      ∀ maxSizeMb, cause ≠ (overflowingSize maxSizeMb).toError := by
  rcases hSized : volume.openSized path size with ⟨result, after⟩
  cases result with
  | ok directory =>
      refine ⟨fun other hOther => ?_, nofun⟩
      obtain rfl := Except.ok.inj hOther
      exact requestedSize_of_openSized hSized
  | error failure =>
      refine ⟨nofun, fun cause hCause => ?_⟩
      obtain rfl := Except.error.inj hCause
      exact ⟨toError_ne_config failure,
        (sizedFailure_of_openSized hSized).toError_ne_overflowingSize⟩

end Lmdb.Volume

/-- Settings are valid exactly if they can be used, and otherwise the first of
their flaws is reported; those that are read from a document are valid. A cache and
an environment are set up from valid settings with just the bound, the forwarding
and the size in bytes that the settings give, and what may still go wrong is no
matter of the settings. From invalid settings, or with a size that cannot be
counted, nothing is set up and nothing is changed. -/
theorem Settings.usable_or_without_effect {κ υ σ : Type} [DecidableEq κ] (source : Source σ κ υ)
    (settings : Settings) :
    (settings.validate = .ok () ↔ settings.Usable) ∧
    settings.validate = reportFirst settings.flaws ∧
    (∀ text, Settings.parse text = .ok settings → settings.Usable) ∧
    (settings.Usable →
      (∃ cache : ReadCache κ υ, ReadCache.ofSettings settings.cache = .ok cache ∧
        cache.maxCapacity.map Capacity.count = settings.cache.maxCapacity ∧
        ∀ s, source.cached.flush (cache, s) =
          if settings.cache.flushSource then ((source.flush s).1, cache, (source.flush s).2)
          else (.ok false, cache, s)) ∧
      ∀ lmdb ∈ settings.lmdb, ∃ size,
        lmdb.mapSizeBytes = some size ∧ size = lmdb.maxSizeMb * 2 ^ 20 ∧ 0 < size ∧
        ∀ (here : Place) (volume : Volume here),
          let sized := volume.openSized lmdb.path size
          let reached := volume.openSettings lmdb
          reached = (sized.1.mapError LmdbError.toError, sized.2) ∧
          (∀ directory, reached.1 = .ok directory →
            ∃ opened, reached.2.opened.get? directory = some opened ∧ opened.requestedSize = size) ∧
          ∀ cause, reached.1 = .error cause →
            (∀ invalid, cause ≠ .config invalid) ∧
            ∀ maxSizeMb, cause ≠ (Volume.overflowingSize maxSizeMb).toError) ∧
    (∀ cause, settings.cache.validate = .error cause →
      (ReadCache.ofSettings settings.cache : Except Error (ReadCache κ υ)) = .error cause) ∧
    (∀ (lmdb : LmdbSettings) (cause : Error) (here : Place) (volume : Volume here),
      lmdb.validate = .error cause →
      volume.openSettings lmdb = (.error cause, volume)) ∧
    ∀ (path : String) (maxSizeMb : Nat) (here : Place) (volume : Volume here),
      2 ^ 64 ≤ maxSizeMb * 2 ^ 20 →
      volume.openPath path maxSizeMb = (.error (Volume.overflowingSize maxSizeMb), volume) := by
  refine ⟨validate_eq_ok_iff, validate_eq settings,
    fun text hText => validate_eq_ok_iff.1 (validate_of_parse hText), fun hUsable => ⟨?_, ?_⟩,
    fun cause hCause => ReadCache.ofSettings_of_error hCause,
    fun lmdb cause here volume hCause => Volume.openSettings_of_error hCause volume,
    fun path maxSizeMb here volume hSize => Volume.openPath_of_uncountable (by omega) path volume⟩
  · obtain ⟨cache, hCache, hCapacity, hFlush⟩ := ReadCache.exists_ofSettings hUsable.maxCapacity
    refine ⟨cache, hCache, hCapacity, fun s => ?_⟩
    rw [← hFlush]
    rfl
  · intro lmdb hSome
    obtain ⟨hPositive, hBound⟩ := hUsable.maxSizeMb lmdb hSome
    have hSize : lmdb.maxSizeMb < 2 ^ 44 := by omega
    have hValid := LmdbSettings.validate_of_usable hUsable hSome
    refine ⟨lmdb.maxSizeMb * 2 ^ 20, ?_, rfl, by omega, fun here volume => ?_⟩
    · rw [LmdbSettings.mapSizeBytes_eq, if_pos hSize]
    · have hReached := Volume.openSettings_of_valid hValid hSize volume
      have hCases := Volume.openSized_cases lmdb.path (lmdb.maxSizeMb * 2 ^ 20) volume
      rw [hReached]
      generalize volume.openSized lmdb.path (lmdb.maxSizeMb * 2 ^ 20) = sized at hCases ⊢
      exact ⟨rfl, hCases⟩

/-- A document that bounds the cache and opens an environment of three megabytes. A
size too large by one and settings with two flaws leave the volume alone. -/
theorem Settings.usable_or_without_effect_read :
    let settings : Settings :=
      ⟨{ maxCapacity := some 5, flushSource := true }, some { path := "d", maxSizeMb := 3 }⟩
    let volume : Volume ["srv"] := {}
    settings.Usable ∧
    (∃ cache : ReadCache Nat Nat, ReadCache.ofSettings settings.cache = .ok cache ∧
      cache.maxCapacity.map Capacity.count = some 5) ∧
    (∃ opened, (volume.openSettings { path := "d", maxSizeMb := 3 }).2.opened.get? ["srv", "d"] =
      some opened ∧ opened.requestedSize = 3 * 2 ^ 20) ∧
    volume.openSettings { path := "", maxSizeMb := 0 } = (.error LmdbSettings.zeroSize, volume) ∧
    volume.openPath "d" (2 ^ 44) = (.error (Volume.overflowingSize (2 ^ 44)), volume) := by
  intro settings volume
  have hText : Settings.parse "cache=[5,true]\nlmdb=['d',3]" = .ok settings := by decide +kernel
  obtain ⟨-, -, hRead, hUse, -, hFlawed, hLarge⟩ :=
    usable_or_without_effect (Table.source : Source (Table Nat Nat) Nat Nat) settings
  have hUsable := hRead _ hText
  obtain ⟨⟨cache, hCache, hCapacity, -⟩, hLmdb⟩ := hUse hUsable
  obtain ⟨size, -, hSize, -, hOpen⟩ := hLmdb _ rfl
  obtain ⟨-, hSized, -⟩ := hOpen _ volume
  have hOk : (volume.openSettings { path := "d", maxSizeMb := 3 }).1 = .ok ["srv", "d"] := by
    decide +kernel
  have hOpened := hSized ["srv", "d"] hOk
  rw [hSize] at hOpened
  refine ⟨hUsable, ⟨cache, hCache, hCapacity⟩, hOpened, hFlawed _ _ _ volume rfl,
    hLarge "d" (2 ^ 44) _ volume (by decide)⟩

end NodeStore
