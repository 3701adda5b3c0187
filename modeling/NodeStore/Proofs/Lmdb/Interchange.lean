import NodeStore.Proofs.Cache.Failure
import NodeStore.Proofs.Lmdb.Opening

/-!
Environments and tables as stores of one kind. Sources on one directory come and
go, and share what is stored there; some of their calls are refused, for reasons
that a table does not know. Main statement: a refused call leaves nothing behind,
and all others are answered as one table would answer them.
-/

namespace NodeStore.Lmdb

/-- Whether there may be a value under a key. -/
def Storable (key : Key) : Prop := key.isEmpty = false ∧ key.length ≤ maxKeyLength

/-- What can be asked of a store. -/
inductive Query where
  | access (call : Access Key Bytes)
  | flush
  | size
  | isEmpty

inductive Answer where
  | replied (reply : Reply Bytes)
  | size (size : Nat)
  | isEmpty (isEmpty : Bool)

def Answer.fault? : Answer → Option Fault
  | .replied reply => reply.fault?
  | .size _ => none
  | .isEmpty _ => none

def Answer.failed (answer : Answer) : Bool := answer.fault?.isSome

namespace Query

variable {σ : Type}

/-- Puts a query to a source of which the size is known. -/
def ask (source : Source σ Key Bytes) (size : σ → Nat) (isEmpty : σ → Bool) :
    Query → σ → Answer × σ
  | .access call, s => (.replied (source.access call s).1, (source.access call s).2)
  | .flush, s => (.replied (.flushed (source.flush s).1), (source.flush s).2)
  | .size, s => (.size (size s), s)
  | .isEmpty, s => (.isEmpty (isEmpty s), s)

def askTable : Query → Table Key Bytes → Answer × Table Key Bytes :=
  ask Table.source Table.size Table.isEmpty

def askEnvironment (engine : Engine) : Query → Environment → Answer × Environment :=
  ask (Environment.source engine) Environment.size fun env => env.size == 0

def askVolume {here : Place} (engine : Engine) (directory : Place) :
    Query → Volume here → Answer × Volume here :=
  ask (Volume.source engine directory) (fun volume => (volume.environment directory).size)
    fun volume => (volume.environment directory).size == 0

/-- Why an environment refuses a query, if it does: no call about an empty key is served,
nothing is stored under too long a key, and the rest is up to the engine. -/
def refusal? (engine : Engine) (env : Environment) : Query → Option Refusal
  | .access (.get key) => if key.isEmpty then some .badValueSize else none
  | .access (.put key value) => env.putRefusal? engine key value
  | .access (.delete key) => env.deleteRefusal? engine key
  | .flush => none
  | .size => none
  | .isEmpty => none

variable {engine : Engine}

/-- A query that is refused is answered with the reason, and changes nothing. -/
theorem askEnvironment_of_refused {query : Query} {env : Environment} {refusal : Refusal}
    (h : query.refusal? engine env = some refusal) :
    (query.askEnvironment engine env).1.fault? = some refusal.toFault ∧
      (query.askEnvironment engine env).2 = env := by
  cases query with
  | flush | size | isEmpty => cases h
  | access call =>
      cases call with
      | get key =>
          rw [refusal?] at h
          split at h
          · next hEmpty =>
              obtain rfl := Option.some.inj h
              simp [askEnvironment, ask, Source.access, Environment.source, Environment.get, hEmpty,
                Answer.fault?, Reply.fault?]
          · cases h
      | put key value =>
          rw [refusal?] at h
          simp [askEnvironment, ask, Source.access, Environment.source, Environment.commit,
            Environment.put, h, Answer.fault?, Reply.fault?]
      | delete key =>
          rw [refusal?] at h
          simp [askEnvironment, ask, Source.access, Environment.source, Environment.commit,
            Environment.delete, h, Answer.fault?, Reply.fault?]

/-- A query that is not refused does to the records what it does to a table. -/
theorem askEnvironment_of_served {query : Query} {env : Environment}
    (h : query.refusal? engine env = none) :
    query.askEnvironment engine env =
        ((query.askTable env.records).1, { env with records := (query.askTable env.records).2 }) ∧
      (query.askTable env.records).1.failed = false := by
  cases query with
  | flush | size => exact ⟨rfl, rfl⟩
  | isEmpty =>
      refine ⟨?_, rfl⟩
      have hEmpty : (env.size == 0) = env.records.isEmpty := by
        rw [Environment.size, Table.size, Table.isEmpty]
        cases env.records.records <;> rfl
      rw [askEnvironment, ask, hEmpty]
      rfl
  | access call =>
      refine ⟨?_, by cases call <;> rfl⟩
      cases call with
      | get key =>
          rw [refusal?] at h
          split at h
          · cases h
          · next hSome =>
              simp [askEnvironment, askTable, ask, Source.access, Environment.source,
                Environment.get, hSome, Table.source]
      | put key value =>
          rw [refusal?] at h
          simp [askEnvironment, askTable, ask, Source.access, Environment.source,
            Environment.commit, Environment.put, h, Table.source]
      | delete key =>
          rw [refusal?] at h
          simp [askEnvironment, askTable, ask, Source.access, Environment.source,
            Environment.commit, Environment.delete, h, Table.source]

/-- A value is stored only under a key that allows it. -/
theorem storable_of_putRefusal? {key : Key} {value : Bytes} {env : Environment}
    (h : env.putRefusal? engine key value = none) : Storable key := by
  rw [Environment.putRefusal?] at h
  split at h
  · cases h
  · next hKey =>
      obtain ⟨hEmpty, hLong⟩ := not_or.1 hKey
      exact ⟨Bool.eq_false_iff.2 hEmpty, Nat.le_of_not_lt hLong⟩

/-- No query that is served stores anything under a key that is empty or too long. -/
theorem storable_askTable {query : Query} {env : Environment} {table : Table Key Bytes}
    (h : query.refusal? engine env = none)
    (hTable : ∀ key, (table.get? key).isSome → Storable key) :
    ∀ key, ((query.askTable table).2.get? key).isSome → Storable key := by
  intro other hSome
  cases query with
  | flush | size | isEmpty => exact hTable other hSome
  | access call =>
      cases call with
      | get key => exact hTable other hSome
      | put key value =>
          change ((table.insert key value).get? other).isSome at hSome
          rw [Table.get?_insert] at hSome
          split at hSome
          · next hOther => exact hOther ▸ storable_of_putRefusal? h
          · exact hTable other hSome
      | delete key =>
          change ((table.erase key).get? other).isSome at hSome
          rw [Table.get?_erase] at hSome
          split at hSome
          · cases hSome
          · exact hTable other hSome

variable {here : Place} {directory : Place} {volume : Volume here}

theorem askVolume_fst (query : Query) :
    (query.askVolume engine directory volume).1 =
      (query.askEnvironment engine (volume.environment directory)).1 := by
  cases query with
  | access call => cases call <;> rfl
  | flush | size | isEmpty => rfl

/-- A query works on the environment of its directory. -/
theorem askVolume_snd (query : Query) (engine : Engine) (directory : Place) (volume : Volume here) :
    (query.askVolume engine directory volume).2 = volume ∨
      (query.askVolume engine directory volume).2 = volume.setEnvironment directory
        (query.askEnvironment engine (volume.environment directory)).2 := by
  cases query with
  | access call => cases call <;> exact .inr rfl
  | flush => exact .inr rfl
  | size | isEmpty => exact .inl rfl

/-- A query to an environment that is open does not touch any other. -/
theorem environment_askVolume (hOpen : (volume.opened.get? directory).isSome) (query : Query)
    (place : Place) :
    (query.askVolume engine directory volume).2.environment place =
      if place = directory then (query.askEnvironment engine (volume.environment directory)).2
      else volume.environment place := by
  cases query with
  | access call => cases call <;> exact Volume.environment_setEnvironment hOpen _ place
  | flush => exact Volume.environment_setEnvironment hOpen _ place
  | size | isEmpty => exact (Volume.ite_environment directory place volume).symm

theorem isSome_askVolume (query : Query) (place : Place) :
    ((query.askVolume engine directory volume).2.opened.get? place).isSome =
      (volume.opened.get? place).isSome := by
  rcases query.askVolume_snd engine directory volume with hSame | hSet
  · rw [hSame]
  · rw [hSet, Volume.isSome_setEnvironment]

end Query

/-- A volume and the sources that are open on it, by number, each with its
directory. -/
structure Desk (here : Place) where
  volume : Volume here := {}
  sources : Table Nat Place := Table.empty

/-- What happens at a desk where all sources are opened with one path and size. -/
inductive Event where
  /-- A source is opened, with or without validation of the settings. If it was
  open before it is closed first. -/
  | openSource (number : Nat) (validated : Bool)
  | closeSource (number : Nat)
  /-- A source is asked while the engine is in the state that it is in. -/
  | query (number : Nat) (query : Query) (engine : Engine)

namespace Desk

variable {here : Place}

/-- A source that cannot be opened stays closed. -/
def openSource (settings : LmdbSettings) (number : Nat) (validated : Bool) (desk : Desk here) :
    Desk here :=
  let (place, volume) :=
    if validated then
      let (result, volume) := desk.volume.openSettings settings
      (result.toOption, volume)
    else
      let (result, volume) := desk.volume.openPath settings.path settings.maxSizeMb
      (result.toOption, volume)
  let sources :=
    match place with
    | some place => desk.sources.insert number place
    | none => desk.sources.erase number
  { volume, sources }

/-- Carries out an event. There is no answer where no source is asked. -/
def step (settings : LmdbSettings) : Event → Desk here → Option Answer × Desk here
  | .openSource number validated, desk => (none, desk.openSource settings number validated)
  | .closeSource number, desk => (none, { desk with sources := desk.sources.erase number })
  | .query number query engine, desk =>
      match desk.sources.get? number with
      | none => (none, desk)
      | some place =>
          let (answer, volume) := query.askVolume engine place desk.volume
          (some answer, { desk with volume })

/-- The query that an event puts to a source, unless the answer is an error. -/
def accepted (settings : LmdbSettings) (event : Event) (desk : Desk here) : Option Query :=
  match event, (step settings event desk).1 with
  | .query _ query _, some answer => if answer.failed then none else some query
  | _, _ => none

theorem accepted_query {settings : LmdbSettings} {number : Nat} {query : Query} {engine : Engine}
    {desk : Desk here} {answer : Answer}
    (h : (step settings (.query number query engine) desk).1 = some answer) :
    accepted settings (.query number query engine) desk =
      if answer.failed then none else some query := by
  simp only [accepted, h]

/-- The answer to an accepted query. -/
def answered (settings : LmdbSettings) (event : Event) (desk : Desk here) : Option Answer :=
  (accepted settings event desk).bind fun _ => (step settings event desk).1

/-- All open sources work on one environment, of the size asked for, with the
records of the table. -/
structure Mirrors (settings : LmdbSettings) (directory : Place) (desk : Desk here)
    (table : Table Key Bytes) : Prop where
  source_open : ∀ number place, desk.sources.get? number = some place →
    place = directory ∧ (desk.volume.opened.get? directory).isSome
  records_eq : (desk.volume.environment directory).records = table
  storable : ∀ key, (table.get? key).isSome → Storable key
  mapSize_eq : (desk.volume.opened.get? directory).isSome →
    ∃ size, settings.mapSizeBytes = some size ∧
      (size ≠ 0 → (desk.volume.environment directory).mapSize = size)

variable {settings : LmdbSettings} {directory : Place} {desk : Desk here} {table : Table Key Bytes}

theorem mirrors_start (settings : LmdbSettings) (directory : Place) :
    Mirrors settings directory ({} : Desk here) Table.empty :=
  ⟨nofun, rfl, nofun, nofun⟩

theorem opens_openSource (settings : LmdbSettings) (number : Nat) (validated : Bool)
    (desk : Desk here) :
    ∃ answer, Volume.Opens ((Path.ofString settings.path).destination here) settings.mapSizeBytes
        desk.volume (desk.openSource settings number validated).volume answer ∧
      (desk.openSource settings number validated).sources =
        match answer with
        | some place => desk.sources.insert number place
        | none => desk.sources.erase number := by
  cases validated with
  | true =>
      rcases hOpen : desk.volume.openSettings settings with ⟨result, volume⟩
      refine ⟨result.toOption, ?_⟩
      simp only [openSource, hOpen, if_true, and_true]
      exact Volume.opens_openSettings hOpen
  | false =>
      rcases hOpen : desk.volume.openPath settings.path settings.maxSizeMb with ⟨result, volume⟩
      refine ⟨result.toOption, ?_⟩
      simp only [openSource, hOpen, Bool.false_eq_true, if_false, and_true]
      exact Volume.opens_openPath hOpen

/-- Opening a source neither moves the others nor changes what is stored. -/
theorem Mirrors.openSource
    (h : Mirrors settings ((Path.ofString settings.path).destination here) desk table)
    (number : Nat) (validated : Bool) :
    Mirrors settings ((Path.ofString settings.path).destination here)
      (desk.openSource settings number validated) table := by
  obtain ⟨answer, hOpens, hSources⟩ := opens_openSource settings number validated desk
  refine ⟨fun other place hPlace => ?_, ?_, h.storable, fun hSome => ?_⟩
  · rw [hSources] at hPlace
    cases answer with
    | none =>
        rw [Table.get?_erase] at hPlace
        split at hPlace
        · cases hPlace
        · obtain ⟨hEq, hSome⟩ := h.source_open other place hPlace
          exact ⟨hEq, hOpens.isSome_of_isSome hSome⟩
    | some found =>
        rw [Table.get?_insert] at hPlace
        split at hPlace
        · exact ⟨hOpens.eq_directory place hPlace, hOpens.isSome rfl⟩
        · obtain ⟨hEq, hSome⟩ := h.source_open other place hPlace
          exact ⟨hEq, hOpens.isSome_of_isSome hSome⟩
  · rw [hOpens.records_eq, h.records_eq]
  · rcases hOpens.mapSize_eq hSome with ⟨hBefore, hSame⟩ | hNew
    · rw [hSame]
      exact h.mapSize_eq hBefore
    · exact hNew

/-- What is stored stays when a source is closed. -/
theorem Mirrors.closeSource (h : Mirrors settings directory desk table) (number : Nat) :
    Mirrors settings directory { desk with sources := desk.sources.erase number } table := by
  refine ⟨fun other place hPlace => ?_, h.records_eq, h.storable, h.mapSize_eq⟩
  rw [Table.get?_erase] at hPlace
  split at hPlace
  · cases hPlace
  · exact h.source_open other place hPlace

/-- The sources of a desk mirror a table as long as their environment does. -/
theorem Mirrors.of_volume (h : Mirrors settings directory desk table) {volume : Volume here}
    {records : Table Key Bytes}
    (hOpen : ∀ place, (volume.opened.get? place).isSome = (desk.volume.opened.get? place).isSome)
    (hRecords : (volume.environment directory).records = records)
    (hStorable : ∀ key, (records.get? key).isSome → Storable key)
    (hMapSize : (volume.environment directory).mapSize =
      (desk.volume.environment directory).mapSize) :
    Mirrors settings directory { desk with volume } records := by
  refine ⟨fun number place hPlace => ?_, hRecords, hStorable, fun hSome => ?_⟩
  · rw [hOpen]
    exact h.source_open number place hPlace
  · rw [hOpen] at hSome
    rw [hMapSize]
    exact h.mapSize_eq hSome

theorem step_query (settings : LmdbSettings) {number : Nat} {place : Place}
    (hPlace : desk.sources.get? number = some place) (query : Query) (engine : Engine) :
    step settings (.query number query engine) desk =
      (some (query.askVolume engine place desk.volume).1,
        { desk with volume := (query.askVolume engine place desk.volume).2 }) := by
  rw [step, hPlace]

/-- A query that the environment refuses is answered with the reason, and changes
nothing. -/
theorem Mirrors.query_of_refused (h : Mirrors settings directory desk table) {number : Nat}
    {place : Place} (hPlace : desk.sources.get? number = some place) {query : Query}
    {engine : Engine} {refusal : Refusal}
    (hRefused : query.refusal? engine (desk.volume.environment directory) = some refusal) :
    let reached := step settings (.query number query engine) desk
    (∃ answer, reached.1 = some answer ∧ answer.fault? = some refusal.toFault) ∧
      accepted settings (.query number query engine) desk = none ∧
      (∀ other, reached.2.volume.environment other = desk.volume.environment other) ∧
      Mirrors settings directory reached.2 table := by
  intro reached
  obtain ⟨rfl, hSome⟩ := h.source_open number place hPlace
  obtain ⟨hFault, hSame⟩ := Query.askEnvironment_of_refused hRefused
  rw [← Query.askVolume_fst] at hFault
  have hReached := step_query settings hPlace query engine
  have hOther (other : Place) : (query.askVolume engine place desk.volume).2.environment other =
      desk.volume.environment other := by
    rw [Query.environment_askVolume hSome, hSame, Volume.ite_environment]
  have hAccepted := accepted_query (congrArg Prod.fst hReached)
  rw [Answer.failed, hFault] at hAccepted
  rw [show reached = _ from hReached]
  refine ⟨⟨_, rfl, hFault⟩, hAccepted, hOther, h.of_volume (query.isSome_askVolume) ?_ h.storable ?_⟩
  · rw [hOther, h.records_eq]
  · rw [hOther]

/-- A query that is not refused is answered as the table answers it. -/
theorem Mirrors.query_of_served (h : Mirrors settings directory desk table) {number : Nat}
    {place : Place} (hPlace : desk.sources.get? number = some place) {query : Query}
    {engine : Engine} (hServed : query.refusal? engine (desk.volume.environment directory) = none) :
    let reached := step settings (.query number query engine) desk
    reached.1 = some (query.askTable table).1 ∧
      accepted settings (.query number query engine) desk = some query ∧
      Mirrors settings directory reached.2 (query.askTable table).2 := by
  intro reached
  obtain ⟨rfl, hSome⟩ := h.source_open number place hPlace
  obtain ⟨hTable, hAnswered⟩ := Query.askEnvironment_of_served hServed
  rw [h.records_eq] at hTable hAnswered
  have hReached := step_query settings hPlace query engine
  have hAccepted := accepted_query (congrArg Prod.fst hReached)
  have hEnv : (query.askVolume engine place desk.volume).2.environment place = _ :=
    Query.environment_askVolume hSome query place
  rw [if_pos rfl, hTable] at hEnv
  rw [Query.askVolume_fst, hTable, if_neg (Bool.eq_false_iff.1 hAnswered)] at hAccepted
  rw [show reached = _ from hReached, Query.askVolume_fst, hTable]
  have hStorable := Query.storable_askTable hServed h.storable
  refine ⟨rfl, hAccepted, h.of_volume (query.isSome_askVolume) ?_ hStorable ?_⟩
  · rw [hEnv]
  · rw [hEnv]

/-- An event either is not an accepted call and leaves the table as it is, or is one and
does to the sources what it does to the table. -/
theorem Mirrors.step_cases
    (h : Mirrors settings ((Path.ofString settings.path).destination here) desk table)
    (event : Event) :
    let reached := step settings event desk
    (accepted settings event desk = none ∧
      (∀ place, (reached.2.volume.environment place).records =
        (desk.volume.environment place).records) ∧
      Mirrors settings ((Path.ofString settings.path).destination here) reached.2 table) ∨
    ∃ query, accepted settings event desk = some query ∧
      reached.1 = some (query.askTable table).1 ∧
      Mirrors settings ((Path.ofString settings.path).destination here) reached.2
        (query.askTable table).2 := by
  intro reached
  cases event with
  | openSource number validated =>
      obtain ⟨answer, hOpens, -⟩ := opens_openSource settings number validated desk
      exact .inl ⟨rfl, hOpens.records_eq, h.openSource number validated⟩
  | closeSource number => exact .inl ⟨rfl, fun _ => rfl, h.closeSource number⟩
  | query number query engine =>
      cases hPlace : desk.sources.get? number with
      | none =>
          have hReached : step settings (.query number query engine) desk = (none, desk) := by
            rw [step, hPlace]
          have hAccepted : accepted settings (.query number query engine) desk = none := by
            simp only [accepted, hReached]
          rw [show reached = (none, desk) from hReached]
          exact .inl ⟨hAccepted, fun _ => rfl, h⟩
      | some place =>
          cases hRefusal : query.refusal? engine
            (desk.volume.environment ((Path.ofString settings.path).destination here)) with
          | some refusal =>
              obtain ⟨-, hAccepted, hSame, hMirrors⟩ := h.query_of_refused hPlace hRefusal
              exact .inl ⟨hAccepted, fun other => by rw [hSame], hMirrors⟩
          | none =>
              obtain ⟨hAnswer, hAccepted, hMirrors⟩ := h.query_of_served hPlace hRefusal
              exact .inr ⟨query, hAccepted, hAnswer, hMirrors⟩

/-- A run of sources and a table that is given the accepted calls answer alike,
and hold the same in the end. -/
theorem Mirrors.run
    (h : Mirrors settings ((Path.ofString settings.path).destination here) desk table)
    (events : List Event) :
    Run.collect (step settings) (answered settings) events desk =
        Run.collect Query.askTable (fun query table => some (query.askTable table).1)
          (Run.collect (step settings) (accepted settings) events desk) table ∧
      Mirrors settings ((Path.ofString settings.path).destination here)
        (Run.final (step settings) events desk)
        (Run.final Query.askTable (Run.collect (step settings) (accepted settings) events desk)
          table) := by
  refine Run.collect_simulation (fun event desk table h hNone => ?_)
    (fun event query desk table h hSome => ?_) events h
  · rcases h.step_cases event with ⟨-, -, hMirrors⟩ | ⟨query, hAccepted, -⟩
    · exact ⟨by rw [answered, hNone]; rfl, hMirrors⟩
    · cases hNone.symm.trans hAccepted
  · rcases h.step_cases event with ⟨hRefused, -⟩ | ⟨accepted, hAccepted, hAnswer, hMirrors⟩
    · cases hSome.symm.trans hRefused
    · obtain rfl : accepted = query := Option.some.inj (hAccepted.symm.trans hSome)
      exact ⟨by rw [answered, hAccepted]; exact hAnswer, hMirrors⟩

/-- A source whose settings are not found invalid is opened. -/
theorem ready_openSource (h : Volume.Ready settings desk.volume)
    (hOpenable : settings.Openable here) (number : Nat) (validated : Bool)
    (hValid : validated = true → settings.validate = .ok ()) :
    Volume.Ready settings (desk.openSource settings number validated).volume ∧
      (desk.openSource settings number validated).sources.get? number =
        some ((Path.ofString settings.path).destination here) := by
  cases validated with
  | true =>
      obtain ⟨after, hOpen, hAfter⟩ := h.openSettings hOpenable (hValid rfl)
      simp only [openSource, hOpen, if_true]
      exact ⟨hAfter, by rw [Except.toOption, Table.get?_insert, if_pos rfl]⟩
  | false =>
      obtain ⟨after, hOpen, hAfter⟩ := h.openPath hOpenable
      simp only [openSource, hOpen, Bool.false_eq_true, if_false]
      exact ⟨hAfter, by rw [Except.toOption, Table.get?_insert, if_pos rfl]⟩

/-- Settings that are refused leave the volume alone. -/
theorem volume_openSource_of_invalid {cause : Error} (h : settings.validate = .error cause)
    (number : Nat) : (desk.openSource settings number true).volume = desk.volume := by
  simp only [openSource, Volume.openSettings_of_error h, if_true]

/-- Whatever happens at the desk, sources can be opened on its path afterwards. -/
theorem ready_step (hOpenable : settings.Openable here) (event : Event) (desk : Desk here)
    (h : Volume.Ready settings desk.volume) :
    Volume.Ready settings (step settings event desk).2.volume := by
  cases event with
  | closeSource number => exact h
  | openSource number validated =>
      rw [step]
      cases validated with
      | false =>
          have hUnasked : false = true → settings.validate = .ok () := fun hTrue =>
            absurd hTrue Bool.false_ne_true
          exact (ready_openSource h hOpenable number false hUnasked).1
      | true =>
          cases hValidate : settings.validate with
          | ok _ => exact (ready_openSource h hOpenable number true fun _ => hValidate).1
          | error cause => rwa [volume_openSource_of_invalid hValidate]
  | query number query engine =>
      cases hPlace : desk.sources.get? number with
      | none => simpa only [step, hPlace] using h
      | some place =>
          rw [step_query settings hPlace]
          rcases query.askVolume_snd engine place desk.volume with hSame | hSet
          · simpa only [hSame] using h
          · simpa only [hSet] using h.setEnvironment place _

/-- Sources that are opened on one path with one size, in any number and over and
over, are one table to those who call them. The calls that are answered with an
error change nothing that is stored; they are those about an empty key, those that
store under too long a key, and the writes that the engine finds no room for, whatever
it goes by. Without them all answers are those of the table. So a key that is too long is
never there, deleting a missing key changes nothing, and a flush never pushes anything
down. Where nothing stands against the path and the size, a source can be opened at any
time, and again. -/
theorem accepted_calls_match_table (here : Place) (settings : LmdbSettings) (events : List Event) :
    let desk := Run.final (step settings) events ({} : Desk here)
    let calls := Run.collect (step settings) (accepted settings) events ({} : Desk here)
    let table := Run.final Query.askTable calls Table.empty
    Run.collect (step settings) (answered settings) events ({} : Desk here) =
        Run.collect Query.askTable (fun query table => some (query.askTable table).1) calls
          Table.empty ∧
      (∀ event, accepted settings event desk = none → ∀ place,
        ((step settings event desk).2.volume.environment place).records =
          (desk.volume.environment place).records) ∧
      (∀ key, (table.get? key).isSome → Storable key) ∧
      (settings.Openable here → ∀ number validated,
        (validated = true → settings.validate = .ok ()) →
          (step settings (.openSource number validated) desk).2.sources.get? number =
            some ((Path.ofString settings.path).destination here)) ∧
      ∀ number place, desk.sources.get? number = some place →
        let environment := desk.volume.environment place
        place = (Path.ofString settings.path).destination here ∧ environment.records = table ∧
          (∃ size, settings.mapSizeBytes = some size ∧ (size ≠ 0 → environment.mapSize = size)) ∧
          ∀ engine,
            (∀ query refusal, query.refusal? engine environment = some refusal →
              accepted settings (.query number query engine) desk = none ∧
              ∃ answer, (step settings (.query number query engine) desk).1 = some answer ∧
                answer.fault? = some refusal.toFault) ∧
            (∀ query, query.refusal? engine environment = none →
              accepted settings (.query number query engine) desk = some query ∧
              (step settings (.query number query engine) desk).1 =
                some (query.askTable table).1) ∧
            (∀ key, key.isEmpty = false → table.get? key = none →
              let reached := step settings (.query number (.access (.delete key)) engine) desk
              reached.1 = some (.replied (.wrote (.ok ()))) ∧
                (reached.2.volume.environment place).records = table) ∧
            (step settings (.query number .flush engine) desk).1 =
              some (.replied (.flushed (.ok false))) := by
  intro desk calls table
  obtain ⟨hAnswers, hMirrors⟩ := (mirrors_start settings _).run events
  refine ⟨hAnswers, fun event hNone => ?_, hMirrors.storable,
    fun hOpenable number validated hValid => ?_, fun number place hPlace => ?_⟩
  · rcases hMirrors.step_cases event with ⟨-, hSame, -⟩ | ⟨query, hAccepted, -⟩
    · exact hSame
    · cases hNone.symm.trans hAccepted
  · have hReady : Volume.Ready settings desk.volume :=
      Run.final_of_step (fun desk : Desk here => Volume.Ready settings desk.volume)
        (ready_step hOpenable) events (.untouched rfl rfl)
    exact (ready_openSource hReady hOpenable number validated hValid).2
  · obtain ⟨rfl, hSome⟩ := hMirrors.source_open number place hPlace
    refine ⟨rfl, hMirrors.records_eq, hMirrors.mapSize_eq hSome, fun engine => ⟨?_, ?_, ?_, ?_⟩⟩
    · intro query refusal hRefused
      obtain ⟨hAnswer, hAccepted, -⟩ := hMirrors.query_of_refused hPlace hRefused
      exact ⟨hAccepted, hAnswer⟩
    · intro query hServed
      obtain ⟨hAnswer, hAccepted, -⟩ := hMirrors.query_of_served hPlace hServed
      exact ⟨hAccepted, hAnswer⟩
    · intro key hKey hMissing reached
      have hErase : table.erase key = table :=
        congrArg Table.mk (Records.erase_of_lookup_eq_none hMissing)
      have hServed : Query.refusal? engine
          (desk.volume.environment ((Path.ofString settings.path).destination here))
          (.access (.delete key)) = none := by
        rw [Query.refusal?, Environment.deleteRefusal?, hKey, hMirrors.records_eq,
          if_neg Bool.false_ne_true]
        exact if_pos (Option.isNone_iff_eq_none.2 hMissing)
      obtain ⟨hAnswer, -, hReached⟩ := hMirrors.query_of_served hPlace hServed
      exact ⟨hAnswer, hReached.records_eq.trans hErase⟩
    · exact (hMirrors.query_of_served hPlace (rfl : Query.refusal? engine _ .flush = none)).1

/-- A source that stores a value, is refused another as the map is full, and is closed; the
value is found when the path is opened again. -/
theorem accepted_calls_match_table_reopened :
    let full : Engine := fun _ _ _ => some .mapFull
    let events : List Event :=
      [.openSource 0 true, .query 0 (.access (.put ⟨[7]⟩ [42])) .withoutPages,
        .query 0 (.access (.put ⟨[8]⟩ [43])) full, .closeSource 0, .query 0 .flush full,
        .openSource 1 false]
    let desk := Run.final (step { path := "node/db", maxSizeMb := 1 }) events ({} : Desk ["srv"])
    LmdbSettings.Openable ["srv"] { path := "node/db", maxSizeMb := 1 } ∧
      desk.sources.get? 1 = some ["srv", "node", "db"] ∧
      (step { path := "node/db", maxSizeMb := 1 } (.openSource 0 true) desk).2.sources.get? 0 =
        some ["srv", "node", "db"] ∧
      Run.collect (step { path := "node/db", maxSizeMb := 1 })
          (answered { path := "node/db", maxSizeMb := 1 }) events ({} : Desk ["srv"]) =
        [.replied (.wrote (.ok ()))] ∧
      (step { path := "node/db", maxSizeMb := 1 } (.query 1 (.access (.get ⟨[7]⟩)) full) desk).1 =
        some (.replied (.got (.ok (some [42])))) := by
  intro full events desk
  have hOpenable : LmdbSettings.Openable ["srv"] { path := "node/db", maxSizeMb := 1 } := by
    refine ⟨rfl, ?_, rfl, by decide +kernel, 1024 * 1024, rfl, by decide⟩
    have hParts : (Path.ofString "node/db").parts = ["node", "db"] := rfl
    intro part hPart
    rw [hParts] at hPart
    simp only [List.mem_cons, List.not_mem_nil, or_false] at hPart
    rcases hPart with rfl | rfl <;> exact ⟨rfl, by decide, by decide⟩
  have hPlace : desk.sources.get? 1 = some ["srv", "node", "db"] := by rfl
  obtain ⟨hAnswers, -, -, hOpens, hSources⟩ :=
    accepted_calls_match_table ["srv"] { path := "node/db", maxSizeMb := 1 } events
  obtain ⟨-, -, -, hEngine⟩ := hSources 1 _ hPlace
  obtain ⟨-, hServed, -, -⟩ := hEngine full
  refine ⟨hOpenable, hPlace, hOpens hOpenable 0 true fun _ => rfl, hAnswers, ?_⟩
  exact (hServed (.access (.get ⟨[7]⟩)) rfl).2

end Desk

end NodeStore.Lmdb
