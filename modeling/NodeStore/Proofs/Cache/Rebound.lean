import NodeStore.Proofs.Cache.Headroom

/-!
Bounding a cache that is in use. A bound keeps the newest entries, and of two
bounds the smaller one decides. Main statement: trimming the oldest entries at
once at the end of a run leaves what driving them out one by one along the run
leaves, if no key is asked for twice.
-/

namespace NodeStore

variable {κ υ σ : Type}

/-- The smaller of two bounds. -/
def Capacity.least (a b : Capacity) : Capacity :=
  ⟨min a.count b.count, lt_min a.count_pos b.count_pos⟩

namespace ReadCache

theorem items_withMaxCapacity (capacity : Capacity) (cache : ReadCache κ υ) :
    (cache.withMaxCapacity capacity).store.items =
      cache.store.items.drop (cache.size - capacity.count) := by
  rw [withMaxCapacity_eq, size_eq]
  rfl

theorem size_withMaxCapacity (capacity : Capacity) (cache : ReadCache κ υ) :
    (cache.withMaxCapacity capacity).size = min cache.size capacity.count := by
  have hSize : cache.store.items.length = cache.size := cache.size_eq.symm
  rw [size_eq, Store.size, items_withMaxCapacity, List.length_drop, hSize]
  omega

theorem evictions_withMaxCapacity (capacity : Capacity) (cache : ReadCache κ υ) :
    (cache.withMaxCapacity capacity).evictions =
      cache.evictions + (cache.size - min cache.size capacity.count) := by
  rw [← size_withMaxCapacity, size_eq, size_eq, withMaxCapacity_eq]

/-- Bounding changes the entries, the bounds and the number of evictions, and
nothing else. -/
theorem withMaxCapacity_eq_drop (capacity : Capacity) (cache : ReadCache κ υ) :
    cache.withMaxCapacity capacity =
      { cache with
        content.store := ⟨cache.store.items.drop (cache.size - capacity.count), some capacity⟩
        content.evictions := cache.evictions + (cache.size - min cache.size capacity.count)
        maxCapacity := some capacity } := by
  rw [← evictions_withMaxCapacity, withMaxCapacity_eq, size_eq]
  rfl

/-- What a bound has let go of, the next one does not miss. -/
theorem withMaxCapacity_withMaxCapacity (a b : Capacity) (cache : ReadCache κ υ) :
    (cache.withMaxCapacity a).withMaxCapacity b =
      (cache.withMaxCapacity (a.least b)).withMaxCapacity b := by
  have hLeast : (a.least b).count = min a.count b.count := rfl
  rw [withMaxCapacity_eq_drop b, withMaxCapacity_eq_drop b (cache.withMaxCapacity (a.least b)),
    items_withMaxCapacity, items_withMaxCapacity, evictions_withMaxCapacity,
    evictions_withMaxCapacity, size_withMaxCapacity, size_withMaxCapacity, List.drop_drop,
    List.drop_drop, hLeast]
  have hItems : cache.size - a.count + (min cache.size a.count - b.count) =
      cache.size - min a.count b.count +
        (min cache.size (min a.count b.count) - b.count) := by omega
  have hEvictions : cache.evictions + (cache.size - min cache.size a.count) +
        (min cache.size a.count - min (min cache.size a.count) b.count) =
      cache.evictions + (cache.size - min cache.size (min a.count b.count)) +
        (min cache.size (min a.count b.count) -
          min (min cache.size (min a.count b.count)) b.count) := by omega
  rw [hItems, hEvictions]
  rfl

/-- A larger bound brings nothing back. -/
theorem withMaxCapacity_grow {a b : Capacity} (h : a.count ≤ b.count) (cache : ReadCache κ υ) :
    let bounded := cache.withMaxCapacity a
    (bounded.withMaxCapacity b).store.items = bounded.store.items ∧
      (bounded.withMaxCapacity b).stats = bounded.stats := by
  intro bounded
  have hSize : bounded.size ≤ b.count := by
    rw [size_withMaxCapacity]
    omega
  have hItems : (bounded.withMaxCapacity b).store.items = bounded.store.items := by
    rw [items_withMaxCapacity, Nat.sub_eq_zero_of_le hSize, List.drop_zero]
  refine ⟨hItems, ?_⟩
  rw [stats_eq, stats_eq, ← size_eq, ← size_eq, evictions_withMaxCapacity, size_withMaxCapacity,
    Nat.min_eq_left hSize, Nat.sub_self, withMaxCapacity_eq]
  rfl

section Trim

variable [DecidableEq κ] {source : Source σ κ υ} {event : Event σ κ υ} {cache : ReadCache κ υ}
  {key : κ} {s : σ}

omit [DecidableEq κ] in
/-- The bound that a cache has already changes nothing. -/
theorem WellFormed.withMaxCapacity_self (h : WellFormed cache) {capacity : Capacity}
    (hBound : cache.maxCapacity = some capacity) : cache.withMaxCapacity capacity = cache := by
  have hSize := h.size_le capacity hBound
  have hStore : (⟨cache.store.items, some capacity⟩ : Store κ υ) = cache.store := by
    rw [← hBound, ← h.agree]
  rw [withMaxCapacity_eq_drop, Nat.sub_eq_zero_of_le hSize, Nat.min_eq_left hSize, Nat.sub_self,
    List.drop_zero, Nat.add_zero, hStore, ← hBound]

theorem peek_withMaxCapacity_of_missing (h : cache.peek key = none) (capacity : Capacity) :
    (cache.withMaxCapacity capacity).peek key = none := by
  rw [peek_eq, Store.find?, List.lookup_eq_none_iff] at h ⊢
  rw [items_withMaxCapacity]
  exact fun record hRecord => h record (List.mem_of_mem_drop hRecord)

omit [DecidableEq κ] in
/-- The newest entries once another has come: it takes the place of the oldest of
them if there are as many as allowed. -/
theorem drop_concat_of_size (capacity : Capacity) (cache : ReadCache κ υ) (record : κ × Entry υ) :
    (cache.store.items ++ [record]).drop (cache.size + 1 - capacity.count) =
      (if capacity.count ≤ cache.size then
        (cache.store.items.drop (cache.size - capacity.count)).drop 1
      else cache.store.items.drop (cache.size - capacity.count)) ++ [record] := by
  have hPos := capacity.count_pos
  have hLength : cache.size + 1 - capacity.count ≤ cache.store.items.length := by
    have hSize : cache.store.items.length = cache.size := cache.size_eq.symm
    omega
  rw [List.drop_append_of_le_length hLength]
  split
  · next hLarge =>
      have hNext : cache.size + 1 - capacity.count = cache.size - capacity.count + 1 := by omega
      rw [List.drop_drop, hNext]
  · next hSmall =>
      have hNone : cache.size + 1 - capacity.count = 0 ∧ cache.size - capacity.count = 0 := by omega
      rw [hNone.1, hNone.2]

/-- Whether a new key is remembered before or after the oldest entries are
dropped makes no difference. -/
theorem Unbounded.withMaxCapacity_remember (h : Unbounded cache) (hMissing : cache.peek key = none)
    (capacity : Capacity) (entry : Entry υ) :
    (cache.remember key entry).withMaxCapacity capacity =
      (cache.withMaxCapacity capacity).remember key entry := by
  have hPos := capacity.count_pos
  have hMissing' := peek_withMaxCapacity_of_missing hMissing capacity
  have hRoom : cache.store.isFull = false := by
    rw [Store.isFull, h.agree, h.bound]
  have hFull : (cache.withMaxCapacity capacity).store.isFull =
      decide (capacity.count ≤ cache.size) := by
    have hSize := size_withMaxCapacity capacity cache
    rw [size_eq] at hSize
    have hBound : (cache.withMaxCapacity capacity).store.capacity = some capacity := by
      rw [withMaxCapacity_eq]
      rfl
    rw [Store.isFull, hBound, hSize]
    apply decide_eq_decide.2
    omega
  have hSize : (cache.remember key entry).size = cache.size + 1 := by
    rw [remember_of_missing hMissing, add_of_missing hMissing, hRoom, size_eq, size_eq]
    exact List.length_append
  have hEvictions : cache.evictions + (cache.size + 1 - min (cache.size + 1) capacity.count) =
      cache.evictions + (cache.size - min cache.size capacity.count) +
        if capacity.count ≤ cache.size then 1 else 0 := by
    split <;> omega
  rw [withMaxCapacity_eq_drop, hSize, remember_of_missing hMissing, remember_of_missing hMissing',
    add_of_missing hMissing, add_of_missing hMissing', hRoom, hFull, withMaxCapacity_eq_drop]
  simp only [Bool.false_eq_true, if_false, Nat.add_zero, decide_eq_true_eq, hEvictions,
    drop_concat_of_size]

omit [DecidableEq κ] in
theorem withMaxCapacity_pass (call : Access κ υ) (capacity : Capacity) (cache : ReadCache κ υ) :
    (call.pass cache).withMaxCapacity capacity = call.pass (cache.withMaxCapacity capacity) := by
  rw [withMaxCapacity_eq, withMaxCapacity_eq]
  cases call <;> rfl

omit [DecidableEq κ] in
theorem withMaxCapacity_release (fault : Fault) (capacity : Capacity) (cache : ReadCache κ υ) :
    (cache.release fault).withMaxCapacity capacity =
      (cache.withMaxCapacity capacity).release fault := by
  rw [withMaxCapacity_eq, withMaxCapacity_eq]
  cases fault <;> rfl

theorem heldBy_of_missing {call : Access κ υ} (h : cache.peek call.key = none) :
    call.heldBy cache = none := by
  cases call with
  | get key => exact h
  | put key value | delete key => rfl

omit [DecidableEq κ] in
theorem Unbounded.pass (h : Unbounded cache) (call : Access κ υ) : Unbounded (call.pass cache) where
  agree := h.agree.pass call
  bound := (call.maxCapacity_pass cache).trans h.bound

/-- An event whose key is not held goes alike before and after the oldest entries
are dropped, as far as it forgets nothing. -/
theorem Unbounded.step_withMaxCapacity (h : Unbounded cache) (hOrdinary : event.isOrdinary = true)
    (hMissing : ∀ key, event.key? = some key → cache.peek key = none) (capacity : Capacity)
    (source : Source σ κ υ) (s : σ) :
    (ReadCache.step source event (cache.withMaxCapacity capacity, s)).2 =
      let reached := ReadCache.step source event (cache, s)
      (reached.2.1.withMaxCapacity capacity, reached.2.2) := by
  cases event with
  | outside change => rfl
  | flush =>
      have hHandsOn : (cache.withMaxCapacity capacity).flushSource = cache.flushSource := by
        rw [withMaxCapacity_eq]
      simp only [ReadCache.step, Source.cached, flush, hHandsOn]
      split <;> rfl
  | upkeep work =>
      cases work with
      | peek | size | stats => rfl
      | invalidate | clear | bound => cases hOrdinary
  | access call =>
      have hPeek := hMissing call.key rfl
      have hHeld := heldBy_of_missing hPeek
      have hHeld' := heldBy_of_missing (peek_withMaxCapacity_of_missing hPeek capacity)
      simp only [ReadCache.step, Source.access_eq_ask]
      rcases hAsk : source.ask call s with ⟨fault | entry, s'⟩
      · rw [Source.cached_ask_of_fault hHeld hAsk, Source.cached_ask_of_fault hHeld' hAsk,
          withMaxCapacity_release, withMaxCapacity_pass]
      · have hPass : (call.pass cache).peek call.key = none := by rw [call.peek_pass, hPeek]
        rw [Source.cached_ask_of_ok hHeld hAsk, Source.cached_ask_of_ok hHeld' hAsk,
          ← withMaxCapacity_pass, (h.pass call).withMaxCapacity_remember hPass]

/-- After an event, no key is held that was not held before it or is the event's
own. -/
theorem peek_step_of_missing (h : Unbounded cache) (hOrdinary : event.isOrdinary = true)
    {other : κ} (hMissing : cache.peek other = none) (hOther : event.key? ≠ some other) :
    (step source event (cache, s)).2.1.peek other = none := by
  rw [← Option.not_isSome_iff_eq_none, isSome_peek_iff] at hMissing ⊢
  rw [(keys_step h.agree source event s).1, survivors_of_ordinary hOrdinary, List.mem_append]
  rintro (hOld | hNew)
  · exact hMissing (List.mem_of_mem_drop hOld)
  · exact hOther (key?_of_admitted (Option.mem_toList.1 hNew)).1

/-- Along a run that names no key twice and none that is held, it makes no
difference whether the oldest entries are dropped before it or after it. -/
theorem Unbounded.final_withMaxCapacity (h : Unbounded cache) {events : List (Event σ κ υ)}
    (hOrdinary : ∀ event ∈ events, event.isOrdinary = true)
    (hDistinct : (events.filterMap Event.key?).Nodup)
    (hMissing : ∀ key ∈ events.filterMap Event.key?, cache.peek key = none) (capacity : Capacity)
    (source : Source σ κ υ) (s : σ) :
    Run.final (ReadCache.step source) events (cache.withMaxCapacity capacity, s) =
      let reached := Run.final (ReadCache.step source) events (cache, s)
      (reached.1.withMaxCapacity capacity, reached.2) := by
  induction events generalizing cache s with
  | nil => rfl
  | cons event events ih =>
      obtain ⟨hEvent, hLater⟩ := List.forall_mem_cons.1 hOrdinary
      have hOwn : ∀ key, event.key? = some key → cache.peek key = none := fun key hKey =>
        hMissing key (List.mem_filterMap.2 ⟨event, List.mem_cons_self .., hKey⟩)
      have hRest : ∀ key ∈ events.filterMap Event.key?,
          event.key? ≠ some key ∧ cache.peek key = none := by
        intro key hKey
        refine ⟨fun hEq => ?_, hMissing key ?_⟩
        · rw [List.filterMap_cons_some hEq, List.nodup_cons] at hDistinct
          exact hDistinct.1 hKey
        · obtain ⟨other, hMem, hOther⟩ := List.mem_filterMap.1 hKey
          exact List.mem_filterMap.2 ⟨other, List.mem_cons_of_mem _ hMem, hOther⟩
      have hDistinct' : (events.filterMap Event.key?).Nodup :=
        hDistinct.sublist ((List.sublist_cons_self event events).filterMap _)
      rw [Run.final, Run.final, h.step_withMaxCapacity hEvent hOwn]
      exact ih (h.step hEvent source s) hLater hDistinct' (fun key hKey =>
        peek_step_of_missing h hEvent (hRest key hKey).2 (hRest key hKey).1) _

/-- Bounding a cache composes, in every state that calls lead to. A bound keeps
the newest entries, as many as it allows, in their order; the others count as
evicted, and all other figures and the source stay. The bound already in force
changes nothing; of two bounds, one after the other, the larger one might as well
have been the smaller; and a larger bound brings nothing back. Along a run whose
calls are about pairwise different keys, and which forgets nothing, it makes no
difference whether a new cache is bounded before it or after it. -/
theorem bounding_composes (source : Source σ κ υ) :
    (∀ state : ReadCache κ υ × σ, Reachable source state →
      let cache := state.1
      (∀ capacity : Capacity,
        let reached := step source (.upkeep (.bound capacity)) state
        let kept := min cache.size capacity.count
        kept ≤ cache.size ∧
        reached.2.1.store.items = cache.store.items.drop (cache.size - kept) ∧
        reached.2.1.size = kept ∧
        reached.2.1.stats = { cache.stats with
          entryCount := kept, evictions := cache.stats.evictions + (cache.size - kept) } ∧
        reached.2.1.maxCapacity = some capacity ∧ reached.2.2 = state.2) ∧
      (∀ capacity : Capacity, cache.maxCapacity = some capacity →
        cache.withMaxCapacity capacity = cache) ∧
      (∀ a b : Capacity, (cache.withMaxCapacity a).withMaxCapacity b =
        (cache.withMaxCapacity (a.least b)).withMaxCapacity b) ∧
      ∀ a b : Capacity, a.count ≤ b.count →
        let bounded := cache.withMaxCapacity a
        (bounded.withMaxCapacity b).store.items = bounded.store.items ∧
          (bounded.withMaxCapacity b).stats = bounded.stats) ∧
    ∀ (events : List (Event σ κ υ)) (capacity : Capacity) (flushSource : Bool) (s : σ),
      (∀ event ∈ events, event.isOrdinary = true) → (events.filterMap Event.key?).Nodup →
      let late := Run.final (step source) events (fresh none flushSource, s)
      Run.final (step source) events (fresh (some capacity) flushSource, s) =
        (late.1.withMaxCapacity capacity, late.2) := by
  refine ⟨fun state h => ⟨fun capacity => ?_, fun capacity hBound => ?_, fun a b => ?_,
    fun a b hLe => ?_⟩, fun events capacity flushSource s hOrdinary hDistinct => ?_⟩
  · refine ⟨Nat.min_le_left .., ?_, size_withMaxCapacity .., ?_, ?_, rfl⟩
    · have hDrop : state.1.size - min state.1.size capacity.count = state.1.size - capacity.count := by
        omega
      rw [hDrop]
      exact items_withMaxCapacity capacity state.1
    · change (state.1.withMaxCapacity capacity).stats = _
      rw [stats_eq, stats_eq, ← size_eq, size_withMaxCapacity, evictions_withMaxCapacity,
        withMaxCapacity_eq]
    · change (state.1.withMaxCapacity capacity).maxCapacity = _
      rw [withMaxCapacity_eq]
  · exact h.wellFormed.withMaxCapacity_self hBound
  · exact withMaxCapacity_withMaxCapacity a b state.1
  · exact withMaxCapacity_grow hLe state.1
  · have hStart : Unbounded (fresh none flushSource : ReadCache κ υ) := ⟨.fresh none flushSource, rfl⟩
    exact hStart.final_withMaxCapacity hOrdinary hDistinct (fun _ _ => rfl) capacity source s

/-- An unbounded cache over a table that crashed once, so that its lock is
poisoned: bounded to two it loses key 1, and bounded to one by way of two it is as
if bounded to one at once. Bounding a new cache to two before three calls does the
same as bounding it after them. -/
theorem bounding_composes_poisoned :
    let source : Source (Switched (Table Nat Nat)) Nat Nat := Table.source.crashing
    let one : Capacity := ⟨1, by decide⟩
    let two : Capacity := ⟨2, by decide⟩
    let s : Switched (Table Nat Nat) := { inner := .empty }
    let calls : List (Event (Switched (Table Nat Nat)) Nat Nat) :=
      [.access (.put 1 10), .access (.get 2), .access (.delete 3)]
    let crash : List (Event (Switched (Table Nat Nat)) Nat Nat) :=
      [.outside fun s => { s with faulty := true }, .access (.put 4 40)]
    let state := Run.final (step source) (calls ++ crash) (unbounded, s)
    let late := Run.final (step source) calls (fresh none true, s)
    Reachable source state ∧ state.1.poisoned = true ∧
      (state.1.withMaxCapacity two).store.items = [(2, .absent), (3, .absent)] ∧
      (state.1.withMaxCapacity two).stats = ⟨0, 1, 2, 1⟩ ∧
      (state.1.withMaxCapacity two).withMaxCapacity one =
        (state.1.withMaxCapacity one).withMaxCapacity one ∧
      (∀ event ∈ calls, event.isOrdinary = true) ∧ (calls.filterMap Event.key?).Nodup ∧
      Run.final (step source) calls (fresh (some two) true, s) =
        (late.1.withMaxCapacity two, late.2) := by
  intro source one two s calls crash state late
  have hReachable : Reachable source state := (Reachable.unbounded s).run (calls ++ crash)
  have hOrdinary : ∀ event ∈ calls, event.isOrdinary = true := by simp [calls, Event.isOrdinary]
  have hDistinct : (calls.filterMap Event.key?).Nodup := by decide
  obtain ⟨hStates, hRuns⟩ := bounding_composes source
  obtain ⟨hBound, -, hTwice, -⟩ := hStates state hReachable
  obtain ⟨-, hItems, -, hStats, -, -⟩ := hBound two
  exact ⟨hReachable, by cbv, hItems.trans (by cbv), hStats.trans (by cbv), hTwice two one, hOrdinary,
    hDistinct, hRuns calls two true s hOrdinary hDistinct⟩

end Trim

end ReadCache

end NodeStore
