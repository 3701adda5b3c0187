import NodeStore.Proofs.Cache.Failure
import NodeStore.Proofs.Cache.Invariant
import NodeStore.Proofs.Cache.Trace

/-!
The books of a cache. Its counters are kept at different points of its calls,
some before the source is asked and some after. Over a whole run they balance:
lookups are hits or misses, misses are lookups at the source, and what was ever
admitted is still held, was driven out, or was forgotten.
-/

namespace NodeStore

variable {κ υ σ : Type}

def Request.isLookup : Request κ υ → Bool
  | .access call => call.isLookup
  | .flush => false

namespace ReadCache

def Event.isLookup : Event σ κ υ → Bool
  | .access call => call.isLookup
  | .flush => false
  | .upkeep _ => false
  | .outside _ => false

variable [DecidableEq κ]

/-- The key of an invalidation that answers that it found its key. -/
def invalidated (source : Source σ κ υ) (event : Event σ κ υ) (state : ReadCache κ υ × σ) :
    Option κ :=
  match event, (step source event state).1 with
  | .upkeep (.invalidate key), .held true => some key
  | _, _ => none

/-- How many keys a clearing finds. -/
def cleared (event : Event σ κ υ) (state : ReadCache κ υ × σ) : Option Nat :=
  match event with
  | .upkeep .clear => some state.1.size
  | _ => none

/-- The invalidations of a run that found their keys. -/
def invalidations (source : Source σ κ υ) : List (Event σ κ υ) → ReadCache κ υ × σ → List κ :=
  Run.collect (step source) (invalidated source)

/-- What the clearings of a run found. -/
def clearings (source : Source σ κ υ) : List (Event σ κ υ) → ReadCache κ υ × σ → List Nat :=
  Run.collect (step source) cleared

variable {source : Source σ κ υ} {event : Event σ κ υ} {cache : ReadCache κ υ} {s : σ}

/-- Remembering touches neither hits nor misses. -/
theorem counts_remember (key : κ) (entry : Entry υ) (cache : ReadCache κ υ) :
    (cache.remember key entry).hits = cache.hits ∧
      (cache.remember key entry).misses = cache.misses := by
  cases hPeek : cache.peek key with
  | none =>
      rw [remember_of_missing hPeek, add_of_missing hPeek]
      exact ⟨rfl, rfl⟩
  | some former =>
      rw [remember_of_held hPeek]
      exact ⟨rfl, rfl⟩

omit [DecidableEq κ] in
theorem counts_fresh (capacity : Option Capacity) (flushSource : Bool) :
    let cache : ReadCache κ υ := fresh capacity flushSource
    cache.hits = 0 ∧ cache.misses = 0 ∧ cache.evictions = 0 := by
  cases capacity with
  | none => exact ⟨rfl, rfl, rfl⟩
  | some capacity =>
      refine ⟨rfl, rfl, ?_⟩
      simp [fresh, withMaxCapacity, withFlushSource, unbounded, Store.size]

omit [DecidableEq κ] in
theorem counts_release (fault : Fault) (cache : ReadCache κ υ) :
    (cache.release fault).hits = cache.hits ∧ (cache.release fault).misses = cache.misses := by
  cases fault <;> exact ⟨rfl, rfl⟩

omit [DecidableEq κ] in
theorem counts_pass (call : Access κ υ) (cache : ReadCache κ υ) :
    (call.pass cache).hits = cache.hits ∧
      (call.pass cache).misses = cache.misses + if call.isLookup then 1 else 0 := by
  cases call <;> exact ⟨rfl, rfl⟩

theorem isLookup_of_held {call : Access κ υ} {entry : Entry υ} (h : call.heldBy cache = some entry) :
    call.isLookup = true := by
  cases call with
  | get key => rfl
  | put key value | delete key => cases h

/-- A call that is a lookup is a hit if it is not passed on, and a miss if it
is, however the source answers. No other call counts. -/
theorem counts_access (source : Source σ κ υ) (call : Access κ υ) (cache : ReadCache κ υ) (s : σ) :
    let after := (source.cached.access call (cache, s)).2.1
    let passed := (cache.request? call).toList.countP Request.isLookup
    after.hits + passed = cache.hits + (if call.isLookup then 1 else 0) ∧
      after.misses = cache.misses + passed := by
  intro after passed
  have hAfter : after = (source.cached.ask call (cache, s)).2.1 := by
    simp only [after, Source.access_eq_ask]
  cases hHeld : call.heldBy cache with
  | some entry =>
      rw [Source.cached_ask_of_held hHeld] at hAfter
      simp [hAfter, passed, request?, hHeld, isLookup_of_held hHeld, countHit]
  | none =>
      have hPassed : passed = if call.isLookup then 1 else 0 := by
        simp only [passed, request?, hHeld]
        cases call <;> rfl
      obtain ⟨hHits, hMisses⟩ := counts_pass call cache
      rw [hPassed]
      -- the miss is counted on the way down, so both ways back find it counted
      rcases hAsk : source.ask call s with ⟨fault | entry, s'⟩
      · rw [Source.cached_ask_of_fault hHeld hAsk] at hAfter
        obtain ⟨hHits', hMisses'⟩ := counts_release fault (call.pass cache)
        rw [hAfter, hHits', hMisses', hHits, hMisses]
        exact ⟨rfl, rfl⟩
      · rw [Source.cached_ask_of_ok hHeld hAsk] at hAfter
        obtain ⟨hHits', hMisses'⟩ := counts_remember call.key entry (call.pass cache)
        rw [hAfter, hHits', hMisses', hHits, hMisses]
        exact ⟨rfl, rfl⟩

theorem counts_step (source : Source σ κ υ) (event : Event σ κ υ) (cache : ReadCache κ υ) (s : σ) :
    let after := (step source event (cache, s)).2.1
    let passed := (event.request? cache).toList.countP Request.isLookup
    after.hits + passed = cache.hits + (if event.isLookup then 1 else 0) ∧
      after.misses = cache.misses + passed := by
  cases event with
  | access call => exact counts_access source call cache s
  | flush =>
      rw [step_flush]
      simp only [Event.request?, Event.isLookup]
      split <;> exact ⟨rfl, rfl⟩
  | upkeep work =>
      rw [step, perform_eq]
      cases work <;> exact ⟨rfl, rfl⟩
  | outside change => exact ⟨rfl, rfl⟩

/-- Along a run, lookups are hits or misses, and misses are those lookups that
are passed on. -/
theorem counts_run (source : Source σ κ υ) (events : List (Event σ κ υ))
    (state : ReadCache κ υ × σ) :
    let reached := (Run.final (step source) events state).1
    reached.hits + reached.misses =
        state.1.hits + state.1.misses + events.countP Event.isLookup ∧
      reached.misses = state.1.misses + (requests source events state).countP Request.isLookup := by
  induction events generalizing state with
  | nil => exact ⟨rfl, rfl⟩
  | cons event events ih =>
      obtain ⟨cache, s⟩ := state
      obtain ⟨hLookups, hMisses⟩ := ih (step source event (cache, s)).2
      obtain ⟨hHits, hMisses'⟩ := counts_step source event cache s
      simp only [Run.final, requests, Run.collect, List.countP_append, List.countP_cons] at *
      omega

/-- Whether a key is forgotten is what its invalidation answers. -/
theorem length_invalidated (source : Source σ κ υ) (key : κ) (cache : ReadCache κ υ) (s : σ) :
    (invalidated source (.upkeep (.invalidate key)) (cache, s)).toList.length =
      if key ∈ cache.store.keys then 1 else 0 := by
  have hReply : (step source (.upkeep (.invalidate key)) (cache, s)).1 =
      .held (cache.peek key).isSome := by rw [step, perform_eq, peek_eq]
  by_cases hMem : key ∈ cache.store.keys
  · rw [isSome_peek_iff.2 hMem] at hReply
    simp [invalidated, hReply, hMem]
  · rw [Bool.eq_false_iff.2 (mt isSome_peek_iff.1 hMem)] at hReply
    simp [invalidated, hReply, hMem]

theorem length_filter_ne {keys : List κ} (h : keys.Nodup) (key : κ) :
    (keys.filter fun other => other ≠ key).length + (if key ∈ keys then 1 else 0) = keys.length := by
  have hErase : keys.filter (fun other => other ≠ key) = keys.erase key := by
    rw [h.erase_eq_filter]
    simp [bne, Bool.beq_eq_decide_eq]
  rw [hErase]
  split
  · next hMem => exact List.length_erase_add_one hMem
  · next hMem => rw [List.erase_of_not_mem hMem, Nat.add_zero]

/-- The keys that an event leaves and those that it forgets are all there
were. -/
theorem forgotten_step (h : cache.store.keys.Nodup) (source : Source σ κ υ) (event : Event σ κ υ)
    (s : σ) :
    (event.survivors cache.store.keys).length +
        (invalidated source event (cache, s)).toList.length +
        (cleared event (cache, s)).toList.sum = cache.size := by
  rw [← length_keys]
  cases event with
  | access | flush | outside => rfl
  | upkeep work =>
      cases work with
      | peek | size | stats | bound => rfl
      | clear => simp [Event.survivors, invalidated, cleared, length_keys]
      | invalidate key =>
          rw [length_invalidated]
          exact length_filter_ne h key

/-- What there was and what is admitted is still held after an event, or was
driven out or forgotten at it. -/
theorem WellFormed.balance_step (h : WellFormed cache) (source : Source σ κ υ) (event : Event σ κ υ)
    (s : σ) :
    let after := (ReadCache.step source event (cache, s)).2.1
    cache.size + cache.evictions + (admitted source event (cache, s)).toList.length =
      after.size + after.evictions + (invalidated source event (cache, s)).toList.length +
        (cleared event (cache, s)).toList.sum := by
  have hSize := size_step h.agree source event s
  have hEvictions := (keys_step h.agree source event s).2
  have hForgotten := forgotten_step h.nodup source event s
  omega

/-- Along a run, what was admitted is still held, or was driven out or
forgotten. -/
theorem WellFormed.balance_run {state : ReadCache κ υ × σ} (h : WellFormed state.1)
    (source : Source σ κ υ) (events : List (Event σ κ υ)) :
    let reached := (Run.final (ReadCache.step source) events state).1
    state.1.size + state.1.evictions + (admissions source events state).length =
      reached.size + reached.evictions + (invalidations source events state).length +
        (clearings source events state).sum := by
  induction events generalizing state with
  | nil => rfl
  | cons event events ih =>
      obtain ⟨cache, s⟩ := state
      have hRest := ih (h.step source event s)
      have hStep := h.balance_step source event s
      simp only [Run.final, admissions, invalidations, clearings, Run.collect, List.length_append,
        List.sum_append] at *
      omega

/-- A bounded cache that never forgets fills up with its first admissions, and
then drives out one entry for each. -/
structure Filling (capacity : Capacity) (admissions : Nat) (cache : ReadCache κ υ) : Prop where
  formed : WellFormed cache
  bound : cache.maxCapacity = some capacity
  size_eq : cache.size = min capacity.count admissions
  evictions_eq : cache.evictions = admissions - cache.size

theorem Filling.step {capacity : Capacity} {admissions : Nat} (h : Filling capacity admissions cache)
    (hEvent : event.isOrdinary = true ∨ event.bound? = some capacity) (source : Source σ κ υ) (s : σ) :
    Filling capacity (admissions + (admitted source event (cache, s)).toList.length)
      (ReadCache.step source event (cache, s)).2.1 := by
  have hSurvivors : event.survivors cache.store.keys = cache.store.keys := by
    rcases hEvent with hOrdinary | hBound
    · exact survivors_of_ordinary hOrdinary _
    · rw [Event.eq_of_bound? hBound]
      rfl
  have hBound : (ReadCache.step source event (cache, s)).2.1.maxCapacity = some capacity := by
    rcases hEvent with hOrdinary | hBound
    · rw [maxCapacity_step_of_ordinary hOrdinary, h.bound]
    · rw [maxCapacity_step, hBound, Option.some_or]
  have hSize := size_step h.formed.agree source event s
  have hEvictions := (keys_step h.formed.agree source event s).2
  obtain ⟨hLe, hFull⟩ := h.formed.size_step_le source event s hBound
  have hOldSize := h.size_eq
  have hOldEvictions := h.evictions_eq
  -- an entry leaves only from a cache that ends at its bound, so none was lost below it
  rw [hSurvivors, length_keys] at hSize
  refine ⟨h.formed.step source event s, hBound, ?_, ?_⟩ <;> omega

theorem Filling.run (source : Source σ κ υ) (events : List (Event σ κ υ)) (capacity : Capacity)
    (hEvents : ∀ event ∈ events, event.isOrdinary = true ∨ event.bound? = some capacity)
    (flushSource : Bool) (s : σ) :
    let start : ReadCache κ υ × σ := (fresh (some capacity) flushSource, s)
    Filling capacity (admissions source events start).length
      (Run.final (ReadCache.step source) events start).1 := by
  intro start
  induction events using List.reverseRecOn with
  | nil =>
      refine ⟨wellFormed_fresh (some capacity) flushSource, rfl, ?_, ?_⟩
      · simp [start, Run.final, admissions, Run.collect, ReadCache.size_eq, Store.size]
      · exact (counts_fresh (some capacity) flushSource).2.2.trans (Nat.zero_sub _).symm
  | append_singleton events event ih =>
      rw [Run.final_concat, admissions, Run.collect_concat, List.length_append]
      have hEvent := hEvents event (by simp)
      exact (ih fun other hOther => hEvents other (by simp [hOther])).step hEvent source _

/-- Over any run of a new cache, lookups are hits or misses, and misses are the
lookups that reach the source, failed ones included; the source is told by
noting the calls made on it. What was admitted is held, was driven out, or was
forgotten. A cache that is bounded from the start and never forgets holds as
many entries as were admitted, up to its bound, and has driven out the rest. -/
theorem statistics_balance (source : Source σ κ υ) (events : List (Event σ κ υ))
    (capacity : Option Capacity) (flushSource : Bool) (s : σ) :
    let start : ReadCache κ υ × σ := (fresh capacity flushSource, s)
    let reached := Run.final (step source) events start
    let noted := Run.final (step source.noted) (events.map Event.noted) (start.1, { inner := s })
    let cache := reached.1
    let log := admissions source events start
    cache.stats.hits + cache.stats.misses = events.countP Event.isLookup ∧
    (noted.1 = cache ∧ noted.2.inner = reached.2 ∧
      cache.stats.misses = noted.2.requests.countP Request.isLookup) ∧
    cache.stats.entryCount = cache.size ∧
    log.length = cache.size + cache.stats.evictions + (invalidations source events start).length +
      (clearings source events start).sum ∧
    ∀ bound, capacity = some bound →
      (∀ event ∈ events, event.isOrdinary = true ∨ event.bound? = some bound) →
      cache.size = min bound.count log.length ∧ cache.stats.evictions = log.length - cache.size := by
  intro start reached noted cache log
  obtain ⟨hNoHits, hNoMisses, hNoEvictions⟩ := counts_fresh (κ := κ) (υ := υ) capacity flushSource
  have hNoSize : start.1.size = 0 := by simp [start, size_eq, Store.size]
  have hFormed : WellFormed start.1 := wellFormed_fresh capacity flushSource
  have hBalance := hFormed.balance_run source events
  have hNoted : noted = _ := final_noted source events start.1 { inner := s }
  obtain ⟨hLookups, hMisses⟩ := counts_run source events start
  rw [hNoHits, hNoMisses, Nat.zero_add] at hLookups
  rw [hNoMisses, Nat.zero_add] at hMisses
  rw [hNoSize, hNoEvictions, Nat.zero_add] at hBalance
  have hStats : cache.stats = ⟨cache.hits, cache.misses, cache.size, cache.evictions⟩ := by
    rw [stats_eq, size_eq]
  rw [hStats]
  refine ⟨hLookups, ⟨?_, ?_, ?_⟩, rfl, hBalance, ?_⟩
  · rw [hNoted]
  · rw [hNoted]
    rfl
  · rw [hNoted]
    exact hMisses
  · rintro bound rfl hEvents
    have hFilling := Filling.run source events bound hEvents flushSource s
    exact ⟨hFilling.size_eq, hFilling.evictions_eq⟩

/-- Two entries over a table that fails for a while, bounded to two once more
on the way: one hit, two misses of which the second fails, and three admissions,
the last of which drives out one key. -/
theorem statistics_balance_failing :
    let source : Source (Switched (Table Nat Nat)) Nat Nat := Table.source.failing
    let capacity : Capacity := ⟨2, by decide⟩
    let s : Switched (Table Nat Nat) := { inner := .empty }
    let events : List (Event (Switched (Table Nat Nat)) Nat Nat) :=
      [.access (.put 1 10), .access (.get 2), .outside fun s => { s with faulty := true },
        .access (.get 1), .access (.get 3), .access (.delete 4), .upkeep (.bound capacity),
        .outside fun s => { s with faulty := false }, .access (.put 3 30)]
    let cache := (Run.final (step source) events (fresh (some capacity) false, s)).1
    (∀ event ∈ events, event.isOrdinary = true ∨ event.bound? = some capacity) ∧
      cache.stats.hits + cache.stats.misses = 3 ∧ cache.stats.misses = 2 ∧ cache.size = 2 ∧
      cache.stats.evictions = 3 - 2 := by
  intro source capacity s events cache
  have hEvents : ∀ event ∈ events, event.isOrdinary = true ∨ event.bound? = some capacity := by
    simp [events, Event.isOrdinary, Event.bound?]
  have hAdmissions :
      (admissions source events (fresh (some capacity) false, s)).length = 3 := by cbv
  obtain ⟨hLookups, ⟨-, -, hMisses⟩, -, -, hFilling⟩ :=
    statistics_balance source events (some capacity) false s
  obtain ⟨hSize, hEvictions⟩ := hFilling capacity rfl hEvents
  rw [hAdmissions] at hSize hEvictions
  have hCount : events.countP Event.isLookup = 3 := rfl
  have hSize' : cache.size = 2 := hSize
  refine ⟨hEvents, hLookups.trans hCount, hMisses.trans ?_, hSize', ?_⟩
  · cbv
  · rw [hEvictions, hSize']

end ReadCache

end NodeStore
