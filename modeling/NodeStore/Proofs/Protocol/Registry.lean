import Mathlib.Logic.Basic
import NodeStore.Proofs.Run
import NodeStore.Protocol.Registry
import NodeStore.Records

/-!
What a registry makes of its history. The world around it keeps a log of every call
of a factory, so a handler is known by who built it and nothing is built unseen. Main
statement: a handler is built by the latest registration of its version and by no
other, and the versions listed are those that are supported.
-/

namespace NodeStore

variable {ω : Type}

/-- A world, and the factories called in it so far, by the number of their
registration. -/
structure Logged (ω : Type) where
  world : ω
  calls : List Nat := []

/-- A factory that notes each call of it. -/
def Factory.logged (number : Nat) (factory : Factory ω) : Factory (Logged ω) := fun logged =>
  ((factory logged.world).1,
    { world := (factory logged.world).2, calls := logged.calls ++ [number] })

namespace Registry

section Insert

variable {code other : UInt8} {factory : Factory ω} {factories : List (UInt8 × Factory ω)}

theorem mem_insert {entry : UInt8 × Factory ω} (h : entry ∈ insert code factory factories) :
    entry = (code, factory) ∨ entry ∈ factories := by
  induction factories with
  | nil => exact .inl (List.mem_singleton.1 h)
  | cons first rest ih =>
      rw [insert] at h
      split at h
      · exact List.mem_cons.1 h
      · split at h
        · rcases List.mem_cons.1 h with rfl | hRest
          · exact .inl rfl
          · exact .inr (List.mem_cons_of_mem _ hRest)
        · rcases List.mem_cons.1 h with rfl | hRest
          · exact .inr (List.mem_cons_self ..)
          · exact (ih hRest).imp_right (List.mem_cons_of_mem _)

theorem lookup_cons (entry : UInt8 × Factory ω) (entries : List (UInt8 × Factory ω))
    (other : UInt8) :
    (entry :: entries).lookup other =
      if other = entry.1 then some entry.2 else entries.lookup other := by
  split
  · next hSame => rw [hSame, List.lookup_cons_self]
  · next hOther => exact Records.lookup_cons_ne hOther entry.2 entries

/-- After a registration, its factory is found under its number and every other one
where it was. -/
theorem lookup_insert (code other : UInt8) (factory : Factory ω)
    (factories : List (UInt8 × Factory ω)) :
    (insert code factory factories).lookup other =
      if other = code then some factory else factories.lookup other := by
  induction factories with
  | nil => exact lookup_cons ..
  | cons first rest ih =>
      rw [insert]
      split
      · exact lookup_cons ..
      · split
        · next hSame =>
            rw [lookup_cons, lookup_cons, ← hSame]
            split <;> rfl
        · next hDiffer =>
            rw [lookup_cons, lookup_cons, ih]
            by_cases hFirst : other = first.1
            · rw [if_pos hFirst, if_pos hFirst, if_neg (hFirst ▸ Ne.symm hDiffer)]
            · rw [if_neg hFirst, if_neg hFirst]

/-- Numbers stay ascending. -/
theorem pairwise_insert (h : factories.Pairwise fun a b => a.1 < b.1) :
    (insert code factory factories).Pairwise fun a b => a.1 < b.1 := by
  induction factories with
  | nil => exact List.pairwise_singleton ..
  | cons first rest ih =>
      obtain ⟨hFirst, hRest⟩ := List.pairwise_cons.1 h
      rw [insert]
      split
      · next hBefore =>
          refine List.pairwise_cons.2 ⟨fun entry hMem => ?_, h⟩
          rcases List.mem_cons.1 hMem with rfl | hMem
          · exact hBefore
          · exact UInt8.lt_trans hBefore (hFirst entry hMem)
      · split
        · next hSame =>
            subst hSame
            exact List.pairwise_cons.2 ⟨hFirst, hRest⟩
        · next hNotBefore hNotSame =>
            refine List.pairwise_cons.2 ⟨fun entry hMem => ?_, ih hRest⟩
            rcases mem_insert hMem with rfl | hMem
            · exact UInt8.lt_of_le_of_ne (UInt8.not_lt.1 hNotBefore) (Ne.symm hNotSame)
            · exact hFirst entry hMem

end Insert

/-- Numbers ascend, and each is the number of a version. -/
structure WellFormed (registry : Registry ω) : Prop where
  ascending : registry.factories.Pairwise fun a b => a.1 < b.1
  known : ∀ entry ∈ registry.factories, ∃ version : EthVersion, version.code = entry.1

section Versions

variable {registry : Registry ω}

theorem wellFormed_new : ({} : Registry ω).WellFormed := ⟨List.Pairwise.nil, List.forall_mem_nil _⟩

theorem WellFormed.register (h : registry.WellFormed) (version : EthVersion) (factory : Factory ω) :
    (registry.register version factory).WellFormed := by
  refine ⟨pairwise_insert h.ascending, fun entry hMem => ?_⟩
  rcases mem_insert hMem with rfl | hMem
  · exact ⟨version, rfl⟩
  · exact h.known entry hMem

/-- No number is passed over when the versions are listed. -/
theorem WellFormed.map_code_versions (h : registry.WellFormed) :
    registry.versions.map EthVersion.code = registry.factories.map Prod.fst := by
  have hKnown := h.known
  rw [versions]
  generalize registry.factories = factories at hKnown
  induction factories with
  | nil => rfl
  | cons entry entries ih =>
      obtain ⟨⟨version, hVersion⟩, hRest⟩ := List.forall_mem_cons.1 hKnown
      have hListed := EthVersion.ofCode?_eq_some_iff.2 hVersion
      simp only [List.filterMap_cons, hListed, List.map_cons, hVersion, ih hRest]

/-- The versions are listed in ascending order, none of them twice. -/
theorem WellFormed.pairwise_versions (h : registry.WellFormed) :
    registry.versions.Pairwise fun a b => compare a b = .lt := by
  have hCodes : (registry.versions.map EthVersion.code).Pairwise (· < ·) := by
    rw [h.map_code_versions, List.pairwise_map]
    exact h.ascending
  exact (List.pairwise_map.1 hCodes).imp Std.compare_eq_lt.2

theorem isSupported_iff {code : UInt8} :
    registry.isSupported code = true ↔ code ∈ registry.factories.map Prod.fst := by
  rw [isSupported]
  induction registry.factories with
  | nil => simp
  | cons entry entries ih =>
      rw [lookup_cons, List.map_cons, List.mem_cons, ← ih]
      split
      · next hSame => exact iff_of_true rfl (.inl hSame)
      · next hOther => exact (or_iff_right hOther).symm

/-- The versions listed are those that are supported. -/
theorem mem_versions_iff {version : EthVersion} :
    version ∈ registry.versions ↔ registry.isSupported version.code = true := by
  rw [isSupported_iff, versions, List.mem_filterMap, List.mem_map]
  exact exists_congr fun entry => and_congr_right' (EthVersion.ofCode?_eq_some_iff.trans eq_comm)

end Versions

/-- What is asked of a registry. -/
inductive Event (ω : Type) where
  | register (version : EthVersion) (factory : Factory ω)
  | create (code : UInt8)
  | isSupported (code : UInt8)
  | versions

inductive Answer where
  | registered
  | made (result : Except Error Handler)
  | supported (supported : Bool)
  | versions (versions : List EthVersion)

/-- A registry, the number of registrations so far, and the world around it. -/
structure State (ω : Type) where
  registry : Registry (Logged ω) := {}
  count : Nat := 0
  logged : Logged ω

def step : Event ω → State ω → Answer × State ω
  | .register version factory, state =>
      (.registered,
        { state with
          registry := state.registry.register version (factory.logged state.count)
          count := state.count + 1 })
  | .create code, state =>
      let (result, logged) := state.registry.create code state.logged
      (.made result, { state with logged })
  | .isSupported code, state => (.supported (state.registry.isSupported code), state)
  | .versions, state => (.versions state.registry.versions, state)

/-- What a history makes of a new registry. -/
def reached (events : List (Event ω)) (world : ω) : State ω :=
  Run.final step events { logged := { world } }

def Event.registration? : Event ω → Option (EthVersion × Factory ω)
  | .register version factory => some (version, factory)
  | _ => none

/-- The registrations of a history, by number. -/
def registrations (events : List (Event ω)) : List (EthVersion × Factory ω) :=
  events.filterMap Event.registration?

section Run

/-- What one event makes of the factories. -/
theorem lookup_step (event : Event ω) (state : State ω) (code : UInt8) :
    (step event state).2.registry.factories.lookup code =
      match event.registration? with
      | some (version, factory) =>
          if code = version.code then some (factory.logged state.count)
          else state.registry.factories.lookup code
      | none => state.registry.factories.lookup code := by
  cases event with
  | register version factory => exact lookup_insert ..
  | create | isSupported | versions => rfl

theorem count_step (event : Event ω) (state : State ω) :
    (step event state).2.count = state.count + event.registration?.toList.length := by
  cases event <;> rfl

theorem wellFormed_final {state : State ω} (h : state.registry.WellFormed)
    (events : List (Event ω)) : (Run.final step events state).registry.WellFormed := by
  refine Run.final_of_step (fun state : State ω => state.registry.WellFormed) ?_ events h
  intro event state h
  cases event with
  | register version factory => exact h.register version _
  | create | isSupported | versions => exact h

theorem registrations_cons (event : Event ω) (events : List (Event ω)) :
    registrations (event :: events) = event.registration?.toList ++ registrations events := by
  rw [registrations, List.filterMap_cons]
  cases event.registration? <;> rfl

/-- A factory stays as long as its version is not registered again. -/
theorem lookup_final_of_not_registered {events : List (Event ω)} {version : EthVersion}
    (h : ∀ registration ∈ registrations events, registration.1 ≠ version) (state : State ω) :
    (Run.final step events state).registry.factories.lookup version.code =
      state.registry.factories.lookup version.code := by
  induction events generalizing state with
  | nil => rfl
  | cons event events ih =>
      rw [registrations_cons, List.forall_mem_append] at h
      rw [Run.final, ih h.2, lookup_step]
      cases hEvent : event.registration? with
      | none => rfl
      | some registration =>
          rw [hEvent] at h
          have hOther : registration.1 ≠ version := h.1 registration (List.mem_singleton_self _)
          exact if_neg fun hSame => hOther (EthVersion.code_injective hSame).symm

/-- Under the number of a version stands the factory of its latest registration. -/
theorem lookup_final_of_latest {events : List (Event ω)} {version : EthVersion}
    {factory : Factory ω} {before after : List (EthVersion × Factory ω)}
    (h : registrations events = before ++ (version, factory) :: after)
    (hLatest : ∀ later ∈ after, later.1 ≠ version) (state : State ω) :
    (Run.final step events state).registry.factories.lookup version.code =
      some (factory.logged (state.count + before.length)) := by
  induction events generalizing state before with
  | nil => cases before <;> cases h
  | cons event events ih =>
      rw [registrations_cons] at h
      rw [Run.final]
      cases hEvent : event.registration? with
      | none =>
          rw [hEvent] at h
          rw [ih h, count_step, hEvent]
          rfl
      | some registration =>
          rw [hEvent] at h
          cases before with
          | nil =>
              obtain ⟨rfl, rfl⟩ := List.cons.inj h
              rw [lookup_final_of_not_registered hLatest, lookup_step, hEvent]
              exact if_pos rfl
          | cons first before =>
              obtain ⟨rfl, hRest⟩ := List.cons.inj h
              have hNumber : state.count + 1 + before.length =
                  state.count + (before.length + 1) := by omega
              rw [ih hRest, count_step, hEvent]
              exact congrArg (fun number => some (factory.logged number)) hNumber

/-- A version is supported from its first registration on. -/
theorem isSupported_final {events : List (Event ω)} {code : UInt8} (state : State ω) :
    (Run.final step events state).registry.isSupported code = true ↔
      state.registry.isSupported code = true ∨
        ∃ registration ∈ registrations events, registration.1.code = code := by
  induction events generalizing state with
  | nil => simp [registrations, Run.final]
  | cons event events ih =>
      rw [Run.final, ih, registrations_cons, isSupported, lookup_step, isSupported]
      cases event.registration? with
      | none => rfl
      | some registration =>
          simp only [Option.toList, List.mem_append, List.mem_singleton, or_and_right, exists_or,
            exists_eq_left]
          split
          · next hSame => simp [hSame]
          · next hOther => simp [Ne.symm hOther]

end Run

/-- Whatever has been asked of a new registry, the latest registration of a version
builds its handlers. Its factory is called once for each, and no other factory is
called then, nor any for a number without a registration, which is refused by its
number, nor by anything else that is asked. The versions listed ascend, none is passed
over, and they are those that are supported. -/
theorem latest_registration_builds (events : List (Event ω)) (world : ω) :
    let registered := registrations events
    let state := reached events world
    let registry := state.registry
    (∀ before version factory after, registered = before ++ (version, factory) :: after →
      (∀ later ∈ after, later.1 ≠ version) →
      step (.create version.code) state =
        (.made (.ok (factory state.logged.world).1),
          { state with
            logged := ⟨(factory state.logged.world).2, state.logged.calls ++ [before.length]⟩ })) ∧
    (∀ code, (∀ registration ∈ registered, registration.1.code ≠ code) →
      step (.create code) state = (.made (.error (.protocol (.unsupportedVersion code))), state)) ∧
    (∀ event, (∀ code, event ≠ .create code) → (step event state).2.logged = state.logged) ∧
    registry.versions.Pairwise (fun a b => compare a b = .lt) ∧
    (∀ version, version ∈ registry.versions ↔ registry.isSupported version.code = true) ∧
    registry.versions.map EthVersion.code = registry.factories.map Prod.fst ∧
    ∀ code, registry.isSupported code = true ↔
      ∃ registration ∈ registered, registration.1.code = code := by
  intro registered state registry
  have hFormed : registry.WellFormed := wellFormed_final wellFormed_new events
  have hSupported (code : UInt8) : registry.isSupported code = true ↔
      ∃ registration ∈ registered, registration.1.code = code := by
    exact (isSupported_final _).trans (or_iff_right Bool.false_ne_true)
  refine ⟨fun before version factory after hSplit hLatest => ?_, fun code hMissing => ?_,
    fun event hEvent => ?_, hFormed.pairwise_versions, fun version => mem_versions_iff,
    hFormed.map_code_versions, hSupported⟩
  · have hFactory : registry.factories.lookup version.code =
        some (factory.logged (0 + before.length)) := lookup_final_of_latest hSplit hLatest _
    rw [Nat.zero_add] at hFactory
    rw [step, create, hFactory]
    rfl
  · have hNone : registry.factories.lookup code = none := by
      refine Option.not_isSome_iff_eq_none.1 fun hSome => ?_
      obtain ⟨registration, hMem, hCode⟩ := (hSupported code).1 hSome
      exact hMissing registration hMem hCode
    rw [step, create, hNone]
  · cases event with
    | create code => exact absurd rfl (hEvent code)
    | register | isSupported | versions => rfl

/-- A factory of the other version takes the place of the first one. -/
theorem latest_registration_builds_replaced :
    let first : Factory Nat := fun n => (⟨.v62⟩, n + 1)
    let second : Factory Nat := fun n => (⟨.v63⟩, n + 10)
    let events := [.register .v62 first, .create 62, .register .v62 second]
    let state := reached events 0
    state.logged = ⟨1, [0]⟩ ∧
      step (.create 62) state = (.made (.ok ⟨.v63⟩), { state with logged := ⟨11, [0, 1]⟩ }) ∧
      step (.create 63) state = (.made (.error (.protocol (.unsupportedVersion 63))), state) := by
  intro first second events state
  obtain ⟨hBuilds, hMissing, -⟩ := latest_registration_builds events 0
  refine ⟨rfl, hBuilds [(.v62, first)] .v62 second [] rfl (List.forall_mem_nil _), hMissing 63 ?_⟩
  decide

end Registry

end NodeStore
