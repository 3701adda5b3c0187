import NodeStore.Lmdb.Volume
import NodeStore.Proofs.Cache.Event
import NodeStore.Proofs.FileTree

/-!
Opening environments on a volume. One path leads to one directory, however the
tree around it grows, so sources opened on one path share an environment. Opening
never touches what is stored, and a call by a source works on the environment of
its directory alone.
-/

namespace NodeStore

namespace Lmdb.Volume

variable {here : Place} {volume : Volume here} {directory : Place}

/-- What opening, with a map of `size` bytes if that can be counted, leaves of the
environments: they stay as they are, or one is added, without records, in a
directory that had none. Zero bytes leave the size of the map open. -/
structure Opens (directory : Place) (size : Option Nat) (before after : Volume here)
    (answer : Option Place) : Prop where
  eq_directory : ∀ place, answer = some place → place = directory
  isSome : answer.isSome → (after.opened.get? directory).isSome
  opened : after.opened = before.opened ∨
    before.opened.get? directory = none ∧ ∃ requestedSize mapSize,
      size = some requestedSize ∧ (requestedSize ≠ 0 → mapSize = requestedSize) ∧
        after.opened = before.opened.insert directory ⟨requestedSize, { mapSize }⟩

/-- An attempt that fails may leave files and directories, but no environment. -/
theorem Opens.of_none {size : Option Nat} {before after : Volume here}
    (h : after.opened = before.opened) : Opens directory size before after none :=
  ⟨nofun, nofun, .inl h⟩

theorem mapSize_of_openFiles {size mapSize : Nat} {tree after : FileTree here Content}
    (h : openFiles directory size tree = (.ok mapSize, after)) (hSize : size ≠ 0) :
    mapSize = size := by
  simp only [openFiles, if_neg hSize] at h
  split at h
  · cases h
  · split at h
    · cases h
    · split at h
      · cases h
      · cases h
      · obtain ⟨hResult, -⟩ := Prod.mk.inj h
        split at hResult
        · cases hResult
        · exact (Except.ok.inj hResult).symm

theorem opens_openDirectory {size : Nat} {result : Except LmdbError Place} {after : Volume here}
    (h : volume.openDirectory directory size = (result, after)) :
    Opens directory (some size) volume after result.toOption := by
  rw [openDirectory] at h
  split at h
  · next opened hOpened =>
      obtain ⟨hResult, rfl⟩ := Prod.mk.inj h
      refine ⟨fun place hPlace => ?_, fun _ => by rw [hOpened]; rfl, .inl rfl⟩
      split at hResult
      · subst hResult
        exact (Option.some.inj hPlace).symm
      · subst hResult
        cases hPlace
  · next hNone =>
      split at h
      · obtain ⟨rfl, rfl⟩ := Prod.mk.inj h
        exact .of_none rfl
      · next mapSize tree hFiles =>
          obtain ⟨rfl, rfl⟩ := Prod.mk.inj h
          refine ⟨fun place hPlace => (Option.some.inj hPlace).symm, fun _ => ?_,
            .inr ⟨hNone, size, mapSize, rfl, mapSize_of_openFiles hFiles, rfl⟩⟩
          rw [Table.get?_insert, if_pos rfl]
          rfl

theorem opens_openSized {path : String} {size : Nat} {result : Except LmdbError Place}
    {after : Volume here} (h : volume.openSized path size = (result, after)) :
    Opens ((Path.ofString path).destination here) (some size) volume after result.toOption := by
  rw [openSized] at h
  split at h
  · obtain ⟨rfl, rfl⟩ := Prod.mk.inj h
    exact .of_none rfl
  · split at h
    · obtain ⟨rfl, rfl⟩ := Prod.mk.inj h
      exact .of_none rfl
    · next place hPlace =>
        rw [FileTree.eq_destination_of_locate hPlace] at h
        have hOpens := opens_openDirectory h
        exact ⟨hOpens.eq_directory, hOpens.isSome, hOpens.opened⟩

/-- Sizes are counted in the same way where they are validated and where an
environment is opened. -/
theorem countBytes_eq_mapSizeBytes (settings : LmdbSettings) :
    countBytes settings.maxSizeMb = settings.mapSizeBytes := rfl

/-- Whether it succeeds or not, opening a path does no more than opening the directory
that it leads to may do. -/
theorem opens_openPath {path : String} {maxSizeMb : Nat} {result : Except LmdbError Place}
    {after : Volume here} (h : volume.openPath path maxSizeMb = (result, after)) :
    Opens ((Path.ofString path).destination here) ({ path, maxSizeMb } : LmdbSettings).mapSizeBytes volume
      after result.toOption := by
  rw [openPath, countBytes_eq_mapSizeBytes { path, maxSizeMb }] at h
  split at h
  · obtain ⟨rfl, rfl⟩ := Prod.mk.inj h
    exact .of_none rfl
  · next size hSize =>
      rw [hSize]
      exact opens_openSized h

/-- The same for settings, which may be refused before. -/
theorem opens_openSettings {settings : LmdbSettings} {result : Except Error Place} {after : Volume here}
    (h : volume.openSettings settings = (result, after)) :
    Opens ((Path.ofString settings.path).destination here) settings.mapSizeBytes volume after
      result.toOption := by
  rw [openSettings] at h
  split at h
  · obtain ⟨rfl, rfl⟩ := Prod.mk.inj h
    exact .of_none rfl
  · rcases hPath : volume.openPath settings.path settings.maxSizeMb with ⟨opened, reached⟩
    rw [hPath] at h
    obtain ⟨rfl, rfl⟩ := Prod.mk.inj h
    have hAnswer : (opened.mapError LmdbError.toError).toOption = opened.toOption := by
      cases opened <;> rfl
    rw [hAnswer]
    exact opens_openPath hPath

namespace Opens

variable {before after : Volume here} {size : Option Nat} {answer : Option Place}

/-- Opening leaves all records as they are. -/
theorem records_eq (h : Opens directory size before after answer) (place : Place) :
    (after.environment place).records = (before.environment place).records := by
  rcases h.opened with hSame | ⟨hNone, requestedSize, mapSize, -, -, hAdded⟩
  · rw [environment, environment, hSame]
  · rw [environment, environment, hAdded]
    by_cases hPlace : place = directory
    · rw [hPlace, hNone, Table.get?_insert, if_pos rfl]
    · rw [Table.get?_insert, if_neg hPlace]

/-- What is open stays open. -/
theorem isSome_of_isSome (h : Opens directory size before after answer) {place : Place}
    (hSome : (before.opened.get? place).isSome) : (after.opened.get? place).isSome := by
  rcases h.opened with hSame | ⟨-, requestedSize, mapSize, -, -, hAdded⟩
  · rwa [hSame]
  · rw [hAdded, Table.get?_insert]
    split
    · rfl
    · exact hSome

/-- An environment that was not open before has the size asked for. -/
theorem mapSize_eq (h : Opens directory size before after answer)
    (hSome : (after.opened.get? directory).isSome) :
    (before.opened.get? directory).isSome ∧ after.environment directory = before.environment directory ∨
      ∃ requestedSize, size = some requestedSize ∧
        (requestedSize ≠ 0 → (after.environment directory).mapSize = requestedSize) := by
  rcases h.opened with hSame | ⟨-, requestedSize, mapSize, hSize, hMapSize, hAdded⟩
  · refine .inl ⟨hSame ▸ hSome, ?_⟩
    rw [environment, environment, hSame]
  · refine .inr ⟨requestedSize, hSize, ?_⟩
    rw [environment, hAdded, Table.get?_insert, if_pos rfl]
    exact hMapSize

end Opens

theorem isSome_setEnvironment (directory : Place) (env : Environment) (volume : Volume here)
    (place : Place) :
    ((volume.setEnvironment directory env).opened.get? place).isSome =
      (volume.opened.get? place).isSome := by
  rw [setEnvironment]
  split
  · next opened hOpened =>
      simp only [Table.get?_insert]
      split
      · next hPlace =>
          rw [hPlace, hOpened]
          rfl
      · rfl
  · rfl

/-- An environment that is open is set without touching any other. -/
theorem environment_setEnvironment (h : (volume.opened.get? directory).isSome) (env : Environment)
    (place : Place) :
    (volume.setEnvironment directory env).environment place =
      if place = directory then env else volume.environment place := by
  obtain ⟨opened, hOpened⟩ := Option.isSome_iff_exists.1 h
  rw [setEnvironment, hOpened, environment]
  simp only [Table.get?_insert]
  by_cases hPlace : place = directory
  · rw [if_pos hPlace, if_pos hPlace]
  · rw [if_neg hPlace, if_neg hPlace, environment]

theorem ite_environment (directory place : Place) (volume : Volume here) :
    (if place = directory then volume.environment directory else volume.environment place) =
      volume.environment place := by
  split
  · next hPlace => rw [hPlace]
  · rfl

/-! ### When opening succeeds -/

/-- A file that is not there is made. -/
theorem openFile_of_none {tree : FileTree here Content} {place : Place} (initial : Content)
    (h : tree.node? place = none) :
    tree.openFile place initial = .ok (initial, tree.insert place (.file initial)) := by
  rw [FileTree.openFile, h]

theorem append_ne_of_length_le {place : Place} (h : place.length ≤ directory.length) (file : String) :
    place ≠ directory ++ [file] := by
  rintro rfl
  rw [List.length_append] at h
  exact Nat.not_succ_le_self _ h

/-- In a directory without files an environment is made. Nothing that is not below the
directory is touched. -/
theorem openFiles_of_free {size : Nat} {tree : FileTree here Content}
    (hLength : (directory ++ ["lock.mdb"]).byteCount ≤ maxPathBytes) (hSize : size ≤ largestMap)
    (hLock : tree.node? (directory ++ ["lock.mdb"]) = none)
    (hData : tree.node? (directory ++ ["data.mdb"]) = none) :
    ∃ mapSize, ∃ after : FileTree here Content, openFiles directory size tree = (.ok mapSize, after) ∧
      ∀ place, place.length ≤ directory.length → after.node? place = tree.node? place := by
  have hApart : directory ++ ["data.mdb"] ≠ directory ++ ["lock.mdb"] := fun hSame =>
    absurd (List.append_cancel_left hSame) (by decide)
  have hDataFree : (tree.insert (directory ++ ["lock.mdb"]) (.file .other)).node?
      (directory ++ ["data.mdb"]) = none := by
    rw [FileTree.node?_insert_ne hApart, hData]
  let mapSize := if size = 0 then defaultMapSize else size
  have hMap : ¬largestMap < mapSize := by
    change ¬largestMap < if size = 0 then defaultMapSize else size
    split
    · decide
    · exact Nat.not_lt.2 hSize
  refine ⟨mapSize, (tree.insert (directory ++ ["lock.mdb"]) (.file .other)).insert
    (directory ++ ["data.mdb"]) (.file (.data mapSize)), ?_, fun place hPlace => ?_⟩
  · rw [openFiles, if_neg (Nat.not_lt.2 hLength), openFile_of_none _ hLock]
    simp only
    rw [openFile_of_none _ hDataFree]
    by_cases hZero : size = 0
    · simp only [mapSize, if_pos hZero] at hMap ⊢
      rw [if_neg hMap]
    · simp only [mapSize, if_neg hZero] at hMap ⊢
      rw [if_neg hMap]
  · rw [FileTree.node?_insert_ne (append_ne_of_length_le hPlace _),
      FileTree.node?_insert_ne (append_ne_of_length_le hPlace _)]

end Lmdb.Volume

/-- Settings that nothing stands against where only the working directory is there: their
path leads down from it by names, can be handed to the file system with the file that is
opened at its end, and a map of their size fits below a program. -/
structure LmdbSettings.Openable (here : Place) (settings : LmdbSettings) : Prop where
  absolute_eq : (Path.ofString settings.path).absolute = false
  isName : ∀ part ∈ (Path.ofString settings.path).parts, Path.IsName part
  check_eq : (Path.ofString settings.path).check = .ok ()
  byteCount_le :
    Place.byteCount ((Path.ofString settings.path).destination here ++ ["lock.mdb"]) ≤ maxPathBytes
  size_le : ∃ size, settings.mapSizeBytes = some size ∧ size ≤ Lmdb.Volume.largestMap

theorem LmdbSettings.Openable.path_eq {here : Place} {settings : LmdbSettings}
    (h : settings.Openable here) :
    Path.ofString settings.path = Path.ofNames (Path.ofString settings.path).parts := by
  rw [Path.ofNames, ← h.absolute_eq]

theorem LmdbSettings.Openable.destination_eq {here : Place} {settings : LmdbSettings}
    (h : settings.Openable here) :
    (Path.ofString settings.path).destination here =
      here ++ (Path.ofString settings.path).parts := by
  rw [h.path_eq]
  exact Path.destination_ofNames here h.isName

namespace Lmdb.Volume

variable {here : Place} {volume : Volume here} {settings : LmdbSettings}

/-- A volume on which nothing has been done but to open the environment of some settings,
any number of times. -/
inductive Ready (settings : LmdbSettings) (volume : Volume here) : Prop where
  | untouched (hTree : volume.tree = {})
      (hOpened : volume.opened.get? ((Path.ofString settings.path).destination here) = none)
  | opened {size : Nat} (environment : Environment) (hSize : settings.mapSizeBytes = some size)
      (hReaches : volume.tree.Reaches (Path.ofString settings.path).parts
        (Path.ofString settings.path).parts.length)
      (hOpened : volume.opened.get? ((Path.ofString settings.path).destination here) =
        some ⟨size, environment⟩)

/-- The environment can be opened, for the first time and again. -/
theorem Ready.openPath (h : Ready settings volume) (hOpenable : settings.Openable here) :
    ∃ after : Volume here,
      volume.openPath settings.path settings.maxSizeMb =
          (.ok ((Path.ofString settings.path).destination here), after) ∧
        Ready settings after := by
  obtain ⟨size, hSize, hFits⟩ := hOpenable.size_le
  have hPath := hOpenable.path_eq
  have hDestination := hOpenable.destination_eq
  have hLength := hOpenable.byteCount_le
  have hCheck := hOpenable.check_eq
  rw [hPath] at hCheck
  rw [hDestination] at hLength ⊢
  rw [Volume.openPath, countBytes_eq_mapSizeBytes settings, hSize]
  simp only
  rw [openSized]
  cases h with
  | untouched hTree hOpened =>
      obtain ⟨tree, hMade, hReaches, hFree⟩ := FileTree.makeDirectories_empty hOpenable.isName hCheck
      obtain ⟨mapSize, after, hFiles, hSame⟩ :=
        openFiles_of_free hLength hFits (hFree "lock.mdb") (hFree "data.mdb")
      rw [hDestination] at hOpened
      rw [hTree, hPath, hMade]
      simp only
      rw [hReaches.locate hOpenable.isName hCheck]
      simp only
      rw [openDirectory, hOpened]
      simp only
      rw [hFiles]
      refine ⟨_, rfl, .opened { mapSize } hSize (hReaches.congr hSame) ?_⟩
      rw [hDestination, Table.get?_insert, if_pos rfl]
  | @opened former environment hFormer hReaches hOpened =>
      obtain rfl : former = size := Option.some.inj (hFormer.symm.trans hSize)
      obtain ⟨tree, hMade, hAfter, -⟩ :=
        hReaches.makeDirectories hOpenable.isName hCheck (Nat.le_refl _)
      have hThere := hOpened
      rw [hDestination] at hThere
      rw [hPath, hMade]
      simp only
      rw [hAfter.locate hOpenable.isName hCheck]
      simp only
      rw [openDirectory]
      simp only [hThere, if_true]
      exact ⟨_, rfl, .opened environment hSize hAfter hOpened⟩

/-- Also if the settings are validated before, and found valid. -/
theorem Ready.openSettings (h : Ready settings volume) (hOpenable : settings.Openable here)
    (hValid : settings.validate = .ok ()) :
    ∃ after : Volume here,
      volume.openSettings settings = (.ok ((Path.ofString settings.path).destination here), after) ∧
        Ready settings after := by
  obtain ⟨after, hOpen, hAfter⟩ := h.openPath hOpenable
  refine ⟨after, ?_, hAfter⟩
  rw [Volume.openSettings, hValid]
  simp only
  rw [hOpen]
  rfl

/-- What is stored has no part in whether a path can be opened. -/
theorem Ready.setEnvironment (h : Ready settings volume) (directory : Place) (env : Environment) :
    Ready settings (volume.setEnvironment directory env) := by
  rw [Volume.setEnvironment]
  split
  · next former hFormer =>
      cases h with
      | untouched hTree hOpened =>
          refine .untouched hTree ?_
          simp only [Table.get?_insert]
          split
          · next hSame =>
              rw [← hSame, hOpened] at hFormer
              cases hFormer
          · exact hOpened
      | @opened size environment hSize hReaches hOpened =>
          by_cases hSame : (Path.ofString settings.path).destination here = directory
          · rw [hSame, hFormer] at hOpened
            cases hOpened
            refine .opened env hSize hReaches ?_
            rw [Table.get?_insert, if_pos hSame]
          · refine .opened environment hSize hReaches ?_
            rw [Table.get?_insert, if_neg hSame]
            exact hOpened
  · exact h

end Lmdb.Volume

end NodeStore
