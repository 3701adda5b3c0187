import NodeStore.Proofs.Cache.Balance

/-!
Bounds that are out of reach. A cache whose calls name no more keys than its
bound allows always has room for the next one, so that its bound never decides
anything. Main statement: such a run shows the same as over a cache without a
bound, and if it forgets nothing, the source answers at most one lookup of each
key.
-/

namespace NodeStore.ReadCache

variable {κ υ σ α : Type}

/-- The key that an event is a call about. -/
def Event.key? : Event σ κ υ → Option κ
  | .access call => some call.key
  | .flush => none
  | .upkeep _ => none
  | .outside _ => none

/-- The cache without its bound. -/
def unbind (cache : ReadCache κ υ) : ReadCache κ υ :=
  { cache with content.store := { cache.store with capacity := none }, maxCapacity := none }

/-- What an event shows: its answer, the call that it makes on the source, and
what is there after it. -/
structure Sight (σ κ υ : Type) where
  reply : Reply υ
  request : Option (Request κ υ)
  items : List (κ × Entry υ)
  stats : Stats
  source : σ

theorem unbind_fresh (capacity : Option Capacity) (flushSource : Bool) :
    (fresh capacity flushSource : ReadCache κ υ).unbind = fresh none flushSource := by
  cases capacity with
  | none => rfl
  | some capacity =>
      simp [unbind, fresh, withMaxCapacity_eq, withFlushSource, unbounded, store, evictions,
        Store.resize, Store.size]

variable [DecidableEq κ]

def sight (source : Source σ κ υ) (event : Event σ κ υ) (state : ReadCache κ υ × σ) : Sight σ κ υ :=
  let reached := step source event state
  { reply := reached.1
    request := event.request? state.1
    items := reached.2.1.store.items
    stats := reached.2.1.stats
    source := reached.2.2 }

def sights (source : Source σ κ υ) :
    List (Event σ κ υ) → ReadCache κ υ × σ → List (Sight σ κ υ) :=
  Run.collect (step source) fun event state => some (sight source event state)

/-- The source's answer to a lookup of a key that an event makes on it. -/
def fetched (source : Source σ κ υ) (key : κ) (event : Event σ κ υ) (state : ReadCache κ υ × σ) :
    Option (Option υ) :=
  match event.request? state.1 with
  | some (.access (.get asked)) =>
      if asked = key then (source.get key state.2).1.toOption else none
  | _ => none

/-- The source's answers to the lookups of a key that a run makes on it. A
lookup that fails there has none. -/
def fetches (source : Source σ κ υ) (key : κ) :
    List (Event σ κ υ) → ReadCache κ υ × σ → List (Option υ) :=
  Run.collect (step source) (fetched source key)

variable {source : Source σ κ υ} {event : Event σ κ υ} {cache : ReadCache κ υ} {key : κ} {s : σ}

theorem peek_unbind (cache : ReadCache κ υ) (key : κ) : cache.unbind.peek key = cache.peek key := by
  rw [peek_eq, peek_eq]
  rfl

theorem heldBy_unbind (call : Access κ υ) (cache : ReadCache κ υ) :
    call.heldBy cache.unbind = call.heldBy cache := by
  cases call with
  | get key => exact cache.peek_unbind key
  | put | delete => rfl

theorem request?_unbind (event : Event σ κ υ) (cache : ReadCache κ υ) :
    event.request? cache.unbind = event.request? cache := by
  cases event with
  | access call => rw [Event.request?, Event.request?, request?, request?, heldBy_unbind]
  | flush | upkeep | outside => rfl

omit [DecidableEq κ] in
theorem unbind_pass (call : Access κ υ) (cache : ReadCache κ υ) :
    (call.pass cache).unbind = call.pass cache.unbind := by
  cases call <;> rfl

omit [DecidableEq κ] in
theorem unbind_release (fault : Fault) (cache : ReadCache κ υ) :
    (cache.release fault).unbind = cache.unbind.release fault := by
  cases fault <;> rfl

/-- Where there is room for a key, a bound makes no difference to remembering
it. -/
theorem unbind_remember (hRoom : cache.peek key = none → cache.store.isFull = false)
    (entry : Entry υ) : (cache.remember key entry).unbind = cache.unbind.remember key entry := by
  cases hPeek : cache.peek key with
  | none =>
      have hUnbound : cache.unbind.peek key = none := by rw [peek_unbind, hPeek]
      have hNeverFull : cache.unbind.store.isFull = false := rfl
      rw [remember_of_missing hPeek, remember_of_missing hUnbound, add_of_missing hPeek,
        add_of_missing hUnbound, hRoom hPeek, hNeverFull]
      rfl
  | some former =>
      have hUnbound : cache.unbind.peek key = some former := by rw [peek_unbind, hPeek]
      rw [remember_of_held hPeek, remember_of_held hUnbound]
      rfl

/-- Where there is room for its key, an event that sets no bound goes alike
without one. -/
theorem step_unbind (hBound : event.bound? = none)
    (hRoom : ∀ key, event.key? = some key → cache.peek key = none → cache.store.isFull = false)
    (source : Source σ κ υ) (s : σ) :
    step source event (cache.unbind, s) =
      let reached := step source event (cache, s)
      (reached.1, reached.2.1.unbind, reached.2.2) := by
  cases event with
  | outside change => rfl
  | flush =>
      have hHandsOn : cache.unbind.flushSource = cache.flushSource := rfl
      simp only [step, Source.cached, flush, hHandsOn]
      split <;> rfl
  | upkeep work =>
      rw [step, step, perform_eq, perform_eq]
      cases work with
      | peek | size | stats | invalidate | clear => rfl
      | bound capacity => cases hBound
  | access call =>
      simp only [step, Source.access_eq_ask]
      cases hHeld : call.heldBy cache with
      | some entry =>
          have hUnbound := (heldBy_unbind call cache).trans hHeld
          rw [Source.cached_ask_of_held hHeld, Source.cached_ask_of_held hUnbound]
          rfl
      | none =>
          have hUnbound := (heldBy_unbind call cache).trans hHeld
          rcases hAsk : source.ask call s with ⟨fault | entry, s'⟩
          · rw [Source.cached_ask_of_fault hHeld hAsk, Source.cached_ask_of_fault hUnbound hAsk,
              ← unbind_pass, ← unbind_release]
          · have hPassRoom : (call.pass cache).peek call.key = none →
                (call.pass cache).store.isFull = false := by
              rw [call.peek_pass, call.store_pass]
              exact hRoom call.key rfl
            rw [Source.cached_ask_of_ok hHeld hAsk, Source.cached_ask_of_ok hUnbound hAsk,
              ← unbind_pass, ← unbind_remember hPassRoom]

/-- Whether an event sets no bound, and names only keys of a list. -/
def Event.Within (named : List κ) (event : Event σ κ υ) : Prop :=
  event.bound? = none ∧ ∀ key, event.key? = some key → key ∈ named

/-- A bounded cache that holds only keys of a list, and has lost none. -/
structure Confined (capacity : Capacity) (named : List κ) (cache : ReadCache κ υ) : Prop where
  formed : WellFormed cache
  bound : cache.maxCapacity = some capacity
  keys_subset : cache.store.keys ⊆ named
  evictions_eq : cache.evictions = 0

/-- The key that an event admits is the one that it is a call about, and is not
held. -/
theorem key?_of_admitted (h : admitted source event (cache, s) = some key) :
    event.key? = some key ∧ cache.peek key = none := by
  cases event with
  | flush | upkeep | outside => cases h
  | access call =>
      refine ⟨?_, (access_of_admitted_some h).1⟩
      rw [admitted] at h
      split at h
      · exact h
      · cases h

namespace Confined

variable {capacity : Capacity} {named : List κ}

omit [DecidableEq κ] in
theorem fresh (capacity : Capacity) (named : List κ) (flushSource : Bool) :
    Confined capacity named (fresh (some capacity) flushSource : ReadCache κ υ) where
  formed := wellFormed_fresh (some capacity) flushSource
  bound := rfl
  keys_subset := by simp [Store.keys]
  evictions_eq := (counts_fresh (some capacity) flushSource).2.2

/-- A key of the list that is not held finds room, if the list has no more keys
than the bound allows. -/
theorem room (h : Confined capacity named cache) (hNamed : named.toFinset.card ≤ capacity.count)
    (hKey : key ∈ named) (hPeek : cache.peek key = none) : cache.size < capacity.count := by
  have hMissing : key ∉ cache.store.keys := by
    rw [← isSome_peek_iff, hPeek]
    exact Bool.false_ne_true
  have hNodup : (key :: cache.store.keys).Nodup := List.nodup_cons.2 ⟨hMissing, h.formed.nodup⟩
  have hSubset : (key :: cache.store.keys).toFinset ⊆ named.toFinset := by
    intro other hOther
    rw [List.mem_toFinset, List.mem_cons] at hOther
    rw [List.mem_toFinset]
    rcases hOther with rfl | hHeld
    · exact hKey
    · exact h.keys_subset hHeld
  have hCard := Finset.card_le_card hSubset
  rw [List.toFinset_card_of_nodup hNodup, List.length_cons, length_keys] at hCard
  omega

theorem not_full (h : Confined capacity named cache) (hNamed : named.toFinset.card ≤ capacity.count)
    (hEvent : event.Within named) :
    ∀ key, event.key? = some key → cache.peek key = none → cache.store.isFull = false := by
  intro key hKey hPeek
  have hRoom := h.room hNamed (hEvent.2 key hKey) hPeek
  rw [Bool.eq_false_iff, ne_eq, h.formed.agree.isFull_iff, h.bound, Option.map_some,
    Option.some.injEq]
  omega

theorem evicted_eq (h : Confined capacity named cache) (hNamed : named.toFinset.card ≤ capacity.count)
    (hEvent : event.Within named) : evicted source event (cache, s) = 0 := by
  rw [evicted_of_not_bound hEvent.1]
  refine if_neg fun hEvicts => ?_
  obtain ⟨key, hAdmitted⟩ := Option.isSome_iff_exists.1 hEvicts.1
  obtain ⟨hKey, hPeek⟩ := key?_of_admitted hAdmitted
  have hRoom := h.room hNamed (hEvent.2 key hKey) hPeek
  rw [h.bound, Option.map_some, Option.some.injEq] at hEvicts
  omega

theorem step (h : Confined capacity named cache) (hNamed : named.toFinset.card ≤ capacity.count)
    (hEvent : event.Within named) (source : Source σ κ υ) (s : σ) :
    Confined capacity named (step source event (cache, s)).2.1 := by
  obtain ⟨hKeys, hEvictions⟩ := keys_step h.formed.agree source event s
  rw [h.evicted_eq hNamed hEvent] at hKeys hEvictions
  refine ⟨h.formed.step source event s, ?_, ?_, hEvictions.trans h.evictions_eq⟩
  · rw [maxCapacity_step, hEvent.1, Option.none_or, h.bound]
  · rw [hKeys, List.drop_zero]
    refine List.append_subset.2 ⟨fun other hOther => ?_, fun other hOther => ?_⟩
    · exact h.keys_subset ((event.survivors_sublist _).subset hOther)
    · exact hEvent.2 other (key?_of_admitted (Option.mem_toList.1 hOther)).1

/-- Along a run within the list, whatever is noted alike with and without a
bound makes the same notes. -/
theorem collect_unbind (hNamed : named.toFinset.card ≤ capacity.count)
    {note : Event σ κ υ → ReadCache κ υ × σ → Option α}
    (hNote : ∀ event cache s, Confined capacity named cache → event.Within named →
      note event (cache.unbind, s) = note event (cache, s))
    {events : List (Event σ κ υ)} (hEvents : ∀ event ∈ events, event.Within named)
    (h : Confined capacity named cache) (s : σ) :
    Run.collect (ReadCache.step source) note events (cache.unbind, s) =
      Run.collect (ReadCache.step source) note events (cache, s) := by
  induction events generalizing cache s with
  | nil => rfl
  | cons event events ih =>
      obtain ⟨hEvent, hLater⟩ := List.forall_mem_cons.1 hEvents
      rw [Run.collect, Run.collect, hNote event cache s h hEvent,
        step_unbind hEvent.1 (h.not_full hNamed hEvent)]
      exact congrArg _ (ih hLater (h.step hNamed hEvent source s) _)

theorem sight_unbind (h : Confined capacity named cache)
    (hNamed : named.toFinset.card ≤ capacity.count) (hEvent : event.Within named) :
    sight source event (cache.unbind, s) = sight source event (cache, s) := by
  rw [sight, sight, step_unbind hEvent.1 (h.not_full hNamed hEvent), request?_unbind, stats_eq,
    stats_eq]
  rfl

/-- Along a run within the list nothing is ever driven out. -/
theorem evictions_of_mem_sights (hNamed : named.toFinset.card ≤ capacity.count)
    {events : List (Event σ κ υ)} (hEvents : ∀ event ∈ events, event.Within named)
    (h : Confined capacity named cache) {shown : Sight σ κ υ}
    (hShown : shown ∈ sights source events (cache, s)) : shown.stats.evictions = 0 := by
  induction events generalizing cache s with
  | nil => cases hShown
  | cons event events ih =>
      obtain ⟨hEvent, hLater⟩ := List.forall_mem_cons.1 hEvents
      have hAfter := h.step hNamed hEvent source s
      rw [sights, Run.collect, Option.toList_some, List.singleton_append, List.mem_cons] at hShown
      rcases hShown with rfl | hShown
      · rw [sight, stats_eq]
        exact hAfter.evictions_eq
      · exact ih hLater hAfter hShown

end Confined

theorem fetched_unbind (source : Source σ κ υ) (key : κ) (event : Event σ κ υ) (cache : ReadCache κ υ)
    (s : σ) : fetched source key event (cache.unbind, s) = fetched source key event (cache, s) := by
  rw [fetched, fetched, request?_unbind]

/-- A lookup gets to the source only for a key that is not held. If the source
answers it, the key is held from then on. -/
theorem mem_keys_of_fetched {answer : Option υ}
    (h : fetched source key event (cache, s) = some answer) :
    key ∉ cache.store.keys ∧ key ∈ (step source event (cache, s)).2.1.store.keys := by
  cases event with
  | upkeep | outside => cases h
  | flush =>
      rw [fetched, Event.request?] at h
      split at h <;> simp_all
  | access call =>
      rw [fetched, Event.request?, request?] at h
      cases hHeld : call.heldBy cache with
      | some entry => simp [hHeld] at h
      | none =>
          cases call with
          | put other value | delete other => simp [hHeld] at h
          | get asked =>
              rw [hHeld] at h
              change (if asked = key then (source.get key s).1.toOption else none) = _ at h
              split at h
              · next hAsked =>
                  subst hAsked
                  have hPeek : cache.peek asked = none := hHeld
                  rcases hGet : source.get asked s with ⟨fault | found, s'⟩
                  · rw [hGet] at h
                    cases h
                  · have hAsk : source.ask (.get asked) s = (.ok (.ofOption found), s') := by
                      rw [Source.ask, hGet]
                      rfl
                    rw [step, Source.access_eq_ask, Source.cached_ask_of_ok hHeld hAsk]
                    rw [← isSome_peek_iff, ← isSome_peek_iff, hPeek]
                    exact ⟨Bool.false_ne_true, by rw [Access.key, peek_remember_self]; rfl⟩
              · cases h

/-- A cache without a bound, the store's own included. -/
structure Unbounded (cache : ReadCache κ υ) : Prop where
  agree : BoundsAgree cache
  bound : cache.maxCapacity = none

namespace Unbounded

theorem step (h : Unbounded cache) (hOrdinary : event.isOrdinary = true) (source : Source σ κ υ)
    (s : σ) : Unbounded (step source event (cache, s)).2.1 where
  agree := h.agree.step source event s
  bound := (maxCapacity_step_of_ordinary hOrdinary source cache s).trans h.bound

/-- Without a bound, a key that is held stays as long as nothing is forgotten. -/
theorem keys_subset_step (h : Unbounded cache) (hOrdinary : event.isOrdinary = true)
    (source : Source σ κ υ) (s : σ) :
    cache.store.keys ⊆ (ReadCache.step source event (cache, s)).2.1.store.keys := by
  have hNone : evicted source event (cache, s) = 0 := by
    rw [evicted_of_ordinary hOrdinary, h.bound]
    exact if_neg fun hEvicts => by simp at hEvicts
  rw [(keys_step h.agree source event s).1, survivors_of_ordinary hOrdinary, hNone, List.drop_zero]
  exact List.subset_append_left _ _

/-- What is held is not fetched again. -/
theorem fetches_of_held (h : Unbounded cache) {events : List (Event σ κ υ)}
    (hOrdinary : ∀ event ∈ events, event.isOrdinary = true) (hHeld : key ∈ cache.store.keys) (s : σ) :
    fetches source key events (cache, s) = [] := by
  induction events generalizing cache s with
  | nil => rfl
  | cons event events ih =>
      obtain ⟨hEvent, hLater⟩ := List.forall_mem_cons.1 hOrdinary
      have hNone : fetched source key event (cache, s) = none := by
        rw [Option.eq_none_iff_forall_ne_some]
        exact fun answer hSome => (mem_keys_of_fetched hSome).1 hHeld
      rw [fetches, Run.collect, hNone]
      exact ih (h.step hEvent source s) hLater (h.keys_subset_step hEvent source s hHeld) _

/-- As long as nothing is forgotten, a key is fetched at most once. -/
theorem length_fetches_le (h : Unbounded cache) {events : List (Event σ κ υ)}
    (hOrdinary : ∀ event ∈ events, event.isOrdinary = true) (source : Source σ κ υ) (key : κ) (s : σ) :
    (fetches source key events (cache, s)).length ≤ 1 := by
  induction events generalizing cache s with
  | nil => exact Nat.zero_le 1
  | cons event events ih =>
      obtain ⟨hEvent, hLater⟩ := List.forall_mem_cons.1 hOrdinary
      have hAfter := h.step hEvent source s
      rw [fetches, Run.collect]
      cases hFetched : fetched source key event (cache, s) with
      | none => exact ih hAfter hLater _
      | some answer =>
          have hRest : fetches source key events (ReadCache.step source event (cache, s)).2 = [] :=
            hAfter.fetches_of_held hLater (mem_keys_of_fetched hFetched).2 _
          rw [fetches] at hRest
          rw [hRest]
          exact Nat.le_refl 1

end Unbounded

/-- A bound that is never reached is invisible. If the calls of a run name at most
as many keys as a cache is bounded to, the run goes as with a cache without a
bound, over a source that fails or is changed in any way: each event is answered
alike and makes the same call on the source, and after each event both caches
hold the same entries in the same order under the same figures, with nothing
driven out. If besides the run forgets nothing, the source answers at most one
lookup of each key. -/
theorem bound_out_of_reach_is_invisible (source : Source σ κ υ) (capacity : Capacity)
    (flushSource : Bool) (s : σ) (events : List (Event σ κ υ))
    (hNoBound : ∀ event ∈ events, event.bound? = none)
    (hKeys : (events.filterMap Event.key?).toFinset.card ≤ capacity.count) :
    let bounded : ReadCache κ υ × σ := (fresh (some capacity) flushSource, s)
    let free : ReadCache κ υ × σ := (fresh none flushSource, s)
    let calls := fun start : ReadCache κ υ × σ =>
      (Run.final (step source.noted) (events.map Event.noted) (start.1, { inner := start.2 })).2.requests
    sights source events bounded = sights source events free ∧
      calls bounded = calls free ∧
      (∀ shown ∈ sights source events bounded, shown.stats.evictions = 0) ∧
      ((∀ event ∈ events, event.isOrdinary = true) → ∀ key,
        fetches source key events bounded = fetches source key events free ∧
          (fetches source key events bounded).length ≤ 1) := by
  intro bounded free calls
  have hStart := Confined.fresh (υ := υ) capacity (events.filterMap Event.key?) flushSource
  have hUnbind : free.1 = bounded.1.unbind := (unbind_fresh (some capacity) flushSource).symm
  have hWithin : ∀ event ∈ events, event.Within (events.filterMap Event.key?) := fun event hEvent =>
    ⟨hNoBound event hEvent, fun key hKey => List.mem_filterMap.2 ⟨event, hEvent, hKey⟩⟩
  have hFetches (key : κ) : fetches source key events bounded = fetches source key events free := by
    change _ = fetches source key events (free.1, s)
    rw [hUnbind]
    exact (Confined.collect_unbind hKeys (fun event cache s _ _ => fetched_unbind source key event cache s)
      hWithin hStart s).symm
  have hCalls (start : ReadCache κ υ × σ) : calls start = requests source events start := by
    simp only [calls, final_noted]
    rfl
  refine ⟨?_, ?_, fun shown hShown => Confined.evictions_of_mem_sights hKeys hWithin hStart hShown,
    fun hOrdinary key => ⟨hFetches key, ?_⟩⟩
  · change _ = sights source events (free.1, s)
    rw [hUnbind, sights]
    exact (Confined.collect_unbind hKeys
      (fun event cache s h hEvent => by rw [h.sight_unbind hKeys hEvent]) hWithin hStart s).symm
  · rw [hCalls, hCalls]
    change _ = requests source events (free.1, s)
    rw [hUnbind]
    exact (Confined.collect_unbind hKeys
      (fun event cache s _ _ => request?_unbind event cache) hWithin hStart s).symm
  · rw [hFetches]
    exact Unbounded.length_fetches_le ⟨.fresh none flushSource, rfl⟩ hOrdinary source key s

/-- Two keys under a bound of two, over a table that fails for a while and is
changed past the cache: the lookup of key 2 fails first and is answered later,
and nothing is driven out for it. -/
theorem bound_out_of_reach_is_invisible_failing :
    let source : Source (Switched (Table Nat Nat)) Nat Nat := Table.source.failing
    let bound : Capacity := ⟨2, by decide⟩
    let s : Switched (Table Nat Nat) := { inner := .empty }
    let events : List (Event (Switched (Table Nat Nat)) Nat Nat) :=
      [.access (.put 1 10), .outside fun s => { s with faulty := true }, .access (.get 2),
        .access (.delete 1), .outside fun s => { inner := s.inner.insert 2 20, faulty := false },
        .access (.get 2), .access (.get 1), .access (.put 2 21), .access (.get 2),
        .upkeep .stats]
    let bounded : ReadCache Nat Nat × Switched (Table Nat Nat) := (fresh (some bound) true, s)
    let free : ReadCache Nat Nat × Switched (Table Nat Nat) := (fresh none true, s)
    (∀ event ∈ events, event.bound? = none) ∧
      (events.filterMap Event.key?).toFinset.card ≤ 2 ∧
      sights source events bounded = sights source events free ∧
      (∀ event ∈ events, event.isOrdinary = true) ∧
      fetches source 2 events bounded = [some 20] ∧
      (fetches source 2 events bounded).length ≤ 1 := by
  intro source bound s events bounded free
  have hNoBound : ∀ event ∈ events, event.bound? = none := by simp [events, Event.bound?]
  have hOrdinary : ∀ event ∈ events, event.isOrdinary = true := by simp [events, Event.isOrdinary]
  have hKeys : (events.filterMap Event.key?).toFinset.card ≤ bound.count := by decide
  obtain ⟨hSights, -, -, hFetches⟩ :=
    bound_out_of_reach_is_invisible source bound true s events hNoBound hKeys
  exact ⟨hNoBound, hKeys, hSights, hOrdinary, by cbv, (hFetches hOrdinary 2).2⟩

end NodeStore.ReadCache
