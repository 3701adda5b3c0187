import NodeStore.Proofs.Cache.Admission

/-!
The invariant of a cache's representation. The bound is kept twice, with the
cache and with its store, and the store makes room for a new key only when it is
exactly at its bound. So the two bounds have to agree in every state, no path may
overshoot them, and only a key that is not held may be taken in as new.
-/

namespace NodeStore.ReadCache

variable {κ υ σ : Type} [DecidableEq κ] {source : Source σ κ υ} {event : Event σ κ υ}
  {cache : ReadCache κ υ} {key : κ} {s : σ}

/-- The states that calls lead to, from a cache that is new or was set up, also
through calls that fail or crash and through changes of the source. -/
inductive Reachable (source : Source σ κ υ) : ReadCache κ υ × σ → Prop where
  | unbounded (s : σ) : Reachable source (unbounded, s)
  | ofSettings {settings : CacheSettings} {cache : ReadCache κ υ}
      (hCache : ofSettings settings = .ok cache) (s : σ) : Reachable source (cache, s)
  | withFlushSource {cache : ReadCache κ υ} {s : σ} (h : Reachable source (cache, s))
      (flushSource : Bool) : Reachable source (cache.withFlushSource flushSource, s)
  | step {state : ReadCache κ υ × σ} (h : Reachable source state) (event : Event σ κ υ) :
      Reachable source (step source event state).2

structure WellFormed (cache : ReadCache κ υ) : Prop where
  agree : BoundsAgree cache
  nodup : cache.store.keys.Nodup
  size_le : ∀ capacity, cache.maxCapacity = some capacity → cache.size ≤ capacity.count
  evictions_eq : cache.maxCapacity = none → cache.evictions = 0

omit [DecidableEq κ] in
theorem wellFormed_fresh (capacity : Option Capacity) (flushSource : Bool) :
    WellFormed (fresh capacity flushSource : ReadCache κ υ) where
  agree := .fresh capacity flushSource
  nodup := by simp [Store.keys]
  size_le := by simp [size_eq, Store.size]
  evictions_eq hNone := by
    cases capacity with
    | none => rfl
    | some capacity => cases hNone

omit [DecidableEq κ] in
/-- Setting up a cache gives an empty one with the bound of the settings. -/
theorem eq_fresh_of_ofSettings {settings : CacheSettings} (h : ofSettings settings = .ok cache) :
    cache = fresh settings.capacity settings.flushSource := by
  rw [ofSettings] at h
  cases hValid : settings.validate with
  | error cause =>
      rw [hValid] at h
      cases h
  | ok _ =>
      rw [hValid] at h
      cases hCapacity : settings.capacity with
      | none | some capacity =>
          rw [hCapacity] at h
          exact (Except.ok.inj h).symm

/-- The bound that an event sets. -/
def Event.bound? : Event σ κ υ → Option Capacity
  | .upkeep (.bound capacity) => some capacity
  | _ => none

omit [DecidableEq κ] in
theorem Event.eq_of_bound? {capacity : Capacity} (h : event.bound? = some capacity) :
    event = .upkeep (.bound capacity) := by
  cases event with
  | access | flush | outside => cases h
  | upkeep work =>
      cases work <;> cases h
      rfl

theorem maxCapacity_step (source : Source σ κ υ) (event : Event σ κ υ) (cache : ReadCache κ υ) (s : σ) :
    (step source event (cache, s)).2.1.maxCapacity = event.bound?.or cache.maxCapacity := by
  cases event with
  | access | flush | outside => exact maxCapacity_step_of_ordinary rfl source cache s
  | upkeep work =>
      rw [step, perform_eq]
      cases work <;> rfl

/-- No more is driven out than there is once everything forgotten is gone. -/
theorem evicted_le_survivors (source : Source σ κ υ) (event : Event σ κ υ) (cache : ReadCache κ υ)
    (s : σ) :
    evicted source event (cache, s) ≤ (event.survivors cache.store.keys).length := by
  have hSize := evicted_le_size source event cache s
  rw [← length_keys] at hSize
  cases event with
  | access | flush | outside => exact hSize
  | upkeep work =>
      cases work with
      | peek | size | stats | bound => exact hSize
      | invalidate | clear => simp [evicted, admitted]

theorem evicted_of_not_bound (h : event.bound? = none) :
    evicted source event (cache, s) =
      if (admitted source event (cache, s)).isSome ∧
          cache.maxCapacity.map Capacity.count = some cache.size then 1
      else 0 := by
  cases event with
  | access | flush | outside => rfl
  | upkeep work =>
      cases work with
      | peek | size | stats | invalidate | clear => rfl
      | bound capacity => cases h

/-- Only a call about a key admits one, and such a call forgets nothing. -/
theorem survivors_of_admitted (h : admitted source event (cache, s) = some key) (keys : List κ) :
    event.survivors keys = keys := by
  cases event with
  | access call => rfl
  | flush | upkeep | outside => cases h

/-- Entries that survive an event are still held or were driven out, and the key
that is admitted is held. -/
theorem size_step (h : BoundsAgree cache) (source : Source σ κ υ) (event : Event σ κ υ) (s : σ) :
    (step source event (cache, s)).2.1.size + evicted source event (cache, s) =
      (event.survivors cache.store.keys).length +
        (admitted source event (cache, s)).toList.length := by
  have hKeys := congrArg List.length (keys_step h source event s).1
  have hEvicted := evicted_le_survivors source event cache s
  rw [length_keys, List.length_append, List.length_drop] at hKeys
  omega

namespace WellFormed

/-- No event passes the bound, and entries are driven out only as far as to the
bound. -/
theorem size_step_le (h : WellFormed cache) (source : Source σ κ υ) (event : Event σ κ υ) (s : σ)
    {capacity : Capacity} (hCapacity : (step source event (cache, s)).2.1.maxCapacity = some capacity) :
    let after := (step source event (cache, s)).2.1
    after.size ≤ capacity.count ∧
      (0 < evicted source event (cache, s) → after.size = capacity.count) := by
  intro after
  have hSize : after.size + _ = _ := size_step h.agree source event s
  have hSurvivors := (event.survivors_sublist cache.store.keys).length_le
  rw [length_keys] at hSurvivors
  rw [maxCapacity_step] at hCapacity
  cases hBound : event.bound? with
  | some bound =>
      obtain rfl : event = .upkeep (.bound bound) := Event.eq_of_bound? hBound
      obtain rfl : bound = capacity := Option.some.inj hCapacity
      simp only [evicted, Event.survivors, admitted, length_keys, Option.toList_none,
        List.length_nil] at hSize ⊢
      omega
  | none =>
      rw [hBound, Option.none_or] at hCapacity
      have hOld := h.size_le capacity hCapacity
      rw [evicted_of_not_bound hBound, hCapacity] at hSize ⊢
      cases hAdmitted : admitted source event (cache, s) with
      | none =>
          simp only [hAdmitted, Option.isSome_none, Bool.false_eq_true, false_and, if_false,
            Option.toList_none, List.length_nil] at hSize ⊢
          omega
      | some key =>
          rw [hAdmitted, survivors_of_admitted hAdmitted, length_keys] at hSize
          simp only [Option.isSome_some, true_and, Option.map_some, Option.some.injEq,
            Option.toList_some, List.length_singleton] at hSize ⊢
          split at hSize <;> split <;> omega

theorem step (h : WellFormed cache) (source : Source σ κ υ) (event : Event σ κ υ) (s : σ) :
    WellFormed (step source event (cache, s)).2.1 where
  agree := h.agree.step source event s
  nodup := by
    rw [(keys_step h.agree source event s).1]
    have hKept := (List.drop_sublist (evicted source event (cache, s)) _).trans
      (event.survivors_sublist cache.store.keys)
    refine List.nodup_append.2 ⟨h.nodup.sublist hKept, ?_, ?_⟩
    · cases admitted source event (cache, s) <;> simp
    · rintro key hKey _ hNew rfl
      exact not_mem_keys_of_admitted (Option.mem_toList.1 hNew) (hKept.subset hKey)
  size_le capacity hCapacity := (h.size_step_le source event s hCapacity).1
  evictions_eq hNone := by
    rw [maxCapacity_step, Option.or_eq_none_iff] at hNone
    obtain ⟨hBound, hOld⟩ := hNone
    rw [(keys_step h.agree source event s).2, h.evictions_eq hOld, evicted_of_not_bound hBound, hOld]
    simp

end WellFormed

theorem Reachable.wellFormed {state : ReadCache κ υ × σ} (h : Reachable source state) :
    WellFormed state.1 := by
  induction h with
  | unbounded s => exact wellFormed_fresh none false
  | ofSettings hCache s =>
      rw [eq_fresh_of_ofSettings hCache]
      exact wellFormed_fresh _ _
  | withFlushSource h flushSource ih => exact ⟨ih.agree, ih.nodup, ih.size_le, ih.evictions_eq⟩
  | step h event ih => exact ih.step source event _

theorem Reachable.run {state : ReadCache κ υ × σ} (h : Reachable source state)
    (events : List (Event σ κ υ)) :
    Reachable source (Run.final (ReadCache.step source) events state) :=
  Run.final_of_step (Reachable source) (fun event _ h => h.step event) events h

section Intake

/-- Ways to take in a key as new. -/
abbrev Intake (κ υ : Type) := κ → Entry υ → ReadCache κ υ → ReadCache κ υ

variable (takeIn : Intake κ υ)

/-- Remembers a key, taking in new ones by `takeIn`. -/
def rememberBy (key : κ) (entry : Entry υ) (cache : ReadCache κ υ) : ReadCache κ υ :=
  match cache.store.find? key with
  | some _ => { cache with content.store := cache.store.replace key entry }
  | none => takeIn key entry cache

def getBy (ask : σ → Outcome (Option υ) × σ) (key : κ) (cache : ReadCache κ υ) (s : σ) :
    Outcome (Option υ) × ReadCache κ υ × σ :=
  let cache := cache.underLock
  match cache.store.find? key with
  | some entry => (.ok entry.value?, cache.countHit, s)
  | none =>
      match ask s with
      | (.ok answer, s) => (.ok answer, takeIn key (.ofOption answer) cache.countMiss, s)
      | (.error fault, s) => (.error fault, cache.countMiss.release fault, s)

def writeBy (write : σ → Outcome Unit × σ) (key : κ) (entry : Entry υ) (cache : ReadCache κ υ)
    (s : σ) : Outcome Unit × ReadCache κ υ × σ :=
  let cache := cache.underLock
  match write s with
  | (.ok (), s) => (.ok (), cache.rememberBy takeIn key entry, s)
  | (.error fault, s) => (.error fault, cache.release fault, s)

/-- The calls of a cache over a source when new keys are taken in by `takeIn`. -/
def cachedBy (source : Source σ κ υ) : Source (ReadCache κ υ × σ) κ υ where
  get key s := s.1.getBy takeIn (source.get key) key s.2
  put key value s := s.1.writeBy takeIn (source.put key value) key (.present value) s.2
  delete key s := s.1.writeBy takeIn (source.delete key) key .absent s.2
  flush s := s.1.flush source.flush s.2

variable {takeIn}
  (hTakeIn : ∀ key entry (cache : ReadCache κ υ), cache.peek key = none →
    takeIn key entry cache = cache.add key entry)

include hTakeIn

theorem rememberBy_eq_remember (key : κ) (entry : Entry υ) (cache : ReadCache κ υ) :
    cache.rememberBy takeIn key entry = cache.remember key entry := by
  rw [rememberBy, remember]
  cases hFind : cache.store.find? key with
  | some former => rfl
  | none => exact hTakeIn key entry cache (by rw [peek_eq, hFind])

theorem getBy_eq_get (ask : σ → Outcome (Option υ) × σ) (key : κ) (cache : ReadCache κ υ) (s : σ) :
    cache.getBy takeIn ask key s = cache.get ask key s := by
  rw [getBy, get_eq, underLock_eq]
  cases hFind : cache.store.find? key with
  | some entry => rfl
  | none =>
      rcases ask s with ⟨fault | answer, t⟩
      · rfl
      · have hMissing : cache.countMiss.peek key = none := by rw [peek_countMiss, peek_eq, hFind]
        simp only [hTakeIn key (.ofOption answer) cache.countMiss hMissing]

theorem writeBy_eq_write (write : σ → Outcome Unit × σ) (key : κ) (entry : Entry υ)
    (cache : ReadCache κ υ) (s : σ) :
    cache.writeBy takeIn write key entry s = cache.write write key entry s := by
  rw [writeBy, write_eq, underLock_eq]
  rcases write s with ⟨fault | _, t⟩
  · rfl
  · simp only [rememberBy_eq_remember hTakeIn]

/-- A cache takes in as new only keys that it does not hold: what `takeIn` would
do with others makes no difference. -/
theorem cachedBy_eq_cached (source : Source σ κ υ) : cachedBy takeIn source = source.cached := by
  simp only [cachedBy, Source.cached, getBy_eq_get hTakeIn, writeBy_eq_write hTakeIn]

end Intake

/-- Taking in a key that is not held moves and replaces no entry. It drops the
oldest one of a cache that is at its bound. -/
theorem BoundsAgree.add (h : BoundsAgree cache) (hMissing : cache.peek key = none) (entry : Entry υ) :
    ∃ count, count = (if cache.maxCapacity.map Capacity.count = some cache.size then 1 else 0) ∧
      (cache.add key entry).store.items = cache.store.items.drop count ++ [(key, entry)] ∧
      (cache.add key entry).evictions = cache.evictions + count := by
  refine ⟨_, rfl, ?_, ?_⟩
  · rw [add_of_missing hMissing]
    simp only [h.isFull_iff]
    split <;> rfl
  · rw [add_of_missing hMissing]
    simp only [h.isFull_iff]

/-- In every reachable state the keys held are distinct, a bounded cache is
within its bound, which is also that of its store, and an unbounded one has
driven nothing out. Calls take in as new only keys that are not held, which
moves and replaces nothing. Whenever evictions are counted, just as many keys
leave, the oldest, and leave a cache that is at its bound. -/
theorem reachable_within_bound {state : ReadCache κ υ × σ} (h : Reachable source state) :
    let cache := state.1
    cache.store.keys.Nodup ∧
    (∀ capacity, cache.maxCapacity = some capacity →
      cache.size ≤ capacity.count ∧ cache.store.capacity = some capacity) ∧
    (cache.maxCapacity = none → cache.store.capacity = none ∧ cache.evictions = 0) ∧
    (∀ takeIn : Intake κ υ,
      (∀ key entry (other : ReadCache κ υ), other.peek key = none →
        takeIn key entry other = other.add key entry) →
      cachedBy takeIn source = source.cached) ∧
    (∀ key entry, cache.peek key = none →
      ∃ count, count = (if cache.maxCapacity.map Capacity.count = some cache.size then 1 else 0) ∧
        (cache.add key entry).store.items = cache.store.items.drop count ++ [(key, entry)] ∧
        (cache.add key entry).evictions = cache.evictions + count) ∧
    ∀ event : Event σ κ υ,
      let after := (step source event state).2.1
      let survivors := event.survivors cache.store.keys
      ∃ count ≤ survivors.length,
        after.evictions = cache.evictions + count ∧
        after.store.keys =
          survivors.drop count ++ (admitted source event state).toList ∧
        (0 < count → ∃ capacity, after.maxCapacity = some capacity ∧ after.size = capacity.count) := by
  intro cache
  have hFormed : WellFormed cache := h.wellFormed
  refine ⟨hFormed.nodup, fun capacity hCapacity => ⟨hFormed.size_le capacity hCapacity, ?_⟩,
    fun hNone => ⟨?_, hFormed.evictions_eq hNone⟩, fun takeIn hTakeIn => cachedBy_eq_cached hTakeIn source,
    fun key entry hMissing => hFormed.agree.add hMissing entry, ?_⟩
  · rw [hFormed.agree, hCapacity]
  · rw [hFormed.agree, hNone]
  · intro event after survivors
    obtain ⟨hKeys, hEvictions⟩ := keys_step hFormed.agree source event state.2
    refine ⟨_, evicted_le_survivors source event cache state.2, hEvictions, hKeys, fun hSome => ?_⟩
    have hAfter : WellFormed after := hFormed.step source event state.2
    cases hCapacity : after.maxCapacity with
    | none =>
        have hZero := hAfter.evictions_eq hCapacity
        have hCount : after.evictions = _ := hEvictions
        omega
    | some capacity =>
        exact ⟨capacity, rfl, (hFormed.size_step_le source event state.2 hCapacity).2 hSome⟩

/-- A cache set up for three entries, over a table that crashes for a while, is
bounded to one: two entries leave, those of keys 1 and 2. -/
theorem reachable_within_bound_shrinking :
    let source : Source (Switched (Table Nat Nat)) Nat Nat := Table.source.crashing
    let start : ReadCache Nat Nat × Switched (Table Nat Nat) :=
      (fresh (some ⟨3, by decide⟩) true, { inner := .empty })
    let events : List (Event (Switched (Table Nat Nat)) Nat Nat) :=
      [.access (.put 1 10), .access (.get 2), .outside fun s => { s with faulty := true },
        .access (.put 3 30), .flush, .outside fun s => { s with faulty := false },
        .access (.delete 3)]
    let state := Run.final (step source) events start
    let after := (step source (.upkeep (.bound ⟨1, by decide⟩)) state).2.1
    Reachable source state ∧ state.1.poisoned = true ∧ state.1.size ≤ 3 ∧
      ∃ count ≤ 3, after.evictions = count ∧ after.store.keys = [1, 2, 3].drop count ∧
        (0 < count → ∃ capacity, after.maxCapacity = some capacity ∧ after.size = capacity.count) := by
  intro source start events state after
  have hStart : Reachable source start :=
    .ofSettings (rfl : ofSettings ⟨some 3, true⟩ = .ok start.1) start.2
  have hReachable : Reachable source state := hStart.run events
  obtain ⟨-, hBound, -, -, -, hStep⟩ := reachable_within_bound hReachable
  obtain ⟨count, hCount, hEvictions, hKeys, hLeft⟩ := hStep (.upkeep (.bound ⟨1, by decide⟩))
  have hOld : state.1.evictions = 0 := by cbv
  have hSurvivors : state.1.store.keys = [1, 2, 3] := by cbv
  refine ⟨hReachable, by cbv, (hBound ⟨3, by decide⟩ (by cbv)).1, count, ?_, ?_, ?_, hLeft⟩
  · exact (hSurvivors ▸ hCount : count ≤ [1, 2, 3].length)
  · rw [hEvictions, hOld, Nat.zero_add]
  · rw [hKeys, hSurvivors]
    exact List.append_nil _

end NodeStore.ReadCache
