import Mathlib
import NodeStore.Proofs.Cache.Effect
import NodeStore.Source.Switched
import NodeStore.Source.Table

/-!
Admissions and the order in which entries leave. A cache keeps no history, but
the keys that it holds are described by the log of its admissions: they stand in
the order of their latest admissions, and what a bound drives out are the keys
whose latest admission is earliest.
-/

namespace NodeStore.ReadCache

variable {κ υ σ : Type} [DecidableEq κ]

/-- How many admissions of a log came after the latest one of a key. -/
def age (log : List κ) (key : κ) : Nat := log.reverse.idxOf key

@[simp] theorem age_concat_self (log : List κ) (key : κ) : age (log ++ [key]) key = 0 := by
  rw [age, List.reverse_concat, List.idxOf_cons_self]

theorem age_concat_ne {key other : κ} (h : other ≠ key) (log : List κ) :
    age (log ++ [other]) key = age log key + 1 := by
  rw [age, age, List.reverse_concat, List.idxOf_cons_ne _ h]

/-- The last `count` admissions are of the keys that are younger than that. -/
theorem mem_drop_iff_age_lt {log : List κ} {key : κ} {count : Nat} :
    key ∈ log.drop (log.length - count) ↔ key ∈ log ∧ age log key < count := by
  rw [← List.mem_reverse, ← List.take_reverse]
  constructor
  · intro h
    have hMem : key ∈ log.reverse := List.mem_of_mem_take h
    exact ⟨List.mem_reverse.1 hMem, (List.mem_take_iff_idxOf_lt hMem).1 h⟩
  · intro h
    exact (List.mem_take_iff_idxOf_lt (List.mem_reverse.2 h.1)).2 h.2

/-- The key that an event admits: that of a call which succeeds while the key is
not held. -/
def admitted (source : Source σ κ υ) (event : Event σ κ υ) (state : ReadCache κ υ × σ) : Option κ :=
  match event with
  | .access call =>
      if (state.1.peek call.key).isNone && !(step source event state).1.failed then some call.key
      else none
  | .flush => none
  | .upkeep _ => none
  | .outside _ => none

/-- The admissions of a run, in their order. -/
def admissions (source : Source σ κ υ) : List (Event σ κ υ) → ReadCache κ υ × σ → List κ :=
  Run.collect (step source) (admitted source)

/-- The keys that an event leaves when no bound comes into it. -/
def Event.survivors : Event σ κ υ → List κ → List κ
  | .upkeep (.invalidate key), keys => keys.filter fun other => other ≠ key
  | .upkeep .clear, _ => []
  | _, keys => keys

/-- Whether an event neither forgets nor bounds. -/
def Event.isOrdinary : Event σ κ υ → Bool
  | .upkeep (.invalidate _) => false
  | .upkeep .clear => false
  | .upkeep (.bound _) => false
  | _ => true

/-- How many entries a bound drives out at an event: one when a key is admitted
to a cache that is at its bound, and all that are too many when the cache is
bounded. -/
def evicted (source : Source σ κ υ) (event : Event σ κ υ) (state : ReadCache κ υ × σ) : Nat :=
  match event with
  | .upkeep (.bound capacity) => state.1.size - capacity.count
  | event =>
      if (admitted source event state).isSome ∧
          state.1.maxCapacity.map Capacity.count = some state.1.size then 1
      else 0

variable {source : Source σ κ υ} {event : Event σ κ υ} {cache : ReadCache κ υ} {key : κ} {s : σ}

theorem isSome_peek_iff : (cache.peek key).isSome ↔ key ∈ cache.store.keys := by
  rw [peek_eq, Store.find?, Store.keys, List.lookup_isSome_iff, List.mem_map]
  constructor
  · rintro ⟨record, hRecord, hKey⟩
    exact ⟨record, hRecord, (beq_iff_eq.1 hKey).symm⟩
  · rintro ⟨record, hRecord, hKey⟩
    exact ⟨record, hRecord, beq_iff_eq.2 hKey.symm⟩

/-- A cache whose store has the bound that the cache was given. -/
def BoundsAgree (cache : ReadCache κ υ) : Prop := cache.store.capacity = cache.maxCapacity

omit [DecidableEq κ] in
theorem BoundsAgree.isFull_iff (h : BoundsAgree cache) :
    cache.store.isFull = true ↔ cache.maxCapacity.map Capacity.count = some cache.size := by
  rw [Store.isFull, h]
  cases cache.maxCapacity with
  | none => simp
  | some capacity => simp [size_eq, eq_comm]

theorem BoundsAgree.remember (h : BoundsAgree cache) (entry : Entry υ) :
    BoundsAgree (cache.remember key entry) := by
  cases hPeek : cache.peek key with
  | none =>
      rw [remember_of_missing hPeek, add_of_missing hPeek]
      exact h
  | some former =>
      rw [remember_of_held hPeek]
      exact h

omit [DecidableEq κ] in
theorem BoundsAgree.fresh (capacity : Option Capacity) (flushSource : Bool) :
    BoundsAgree (fresh capacity flushSource : ReadCache κ υ) := by
  cases capacity <;> rfl

omit [DecidableEq κ] in
theorem BoundsAgree.pass (h : BoundsAgree cache) (call : Access κ υ) : BoundsAgree (call.pass cache) := by
  cases call <;> exact h

omit [DecidableEq κ] in
theorem BoundsAgree.release (h : BoundsAgree cache) (fault : Fault) : BoundsAgree (cache.release fault) := by
  cases fault <;> exact h

theorem step_flush (source : Source σ κ υ) (cache : ReadCache κ υ) (s : σ) :
    (step source .flush (cache, s)).2.1 = cache := by
  change (cache.flush source.flush s).2.1 = cache
  rw [flush]
  split <;> rfl

theorem BoundsAgree.step (h : BoundsAgree cache) (source : Source σ κ υ) (event : Event σ κ υ) (s : σ) :
    BoundsAgree (step source event (cache, s)).2.1 := by
  cases event with
  | flush => rwa [step_flush]
  | outside change => exact h
  | upkeep work =>
      rw [ReadCache.step, perform_eq]
      cases work with
      | peek | size | stats | invalidate | clear => exact h
      | bound capacity => rfl
  | access call =>
      rcases source.cached_access_cases call cache s with
        ⟨entry, -, -, hAfter⟩ | ⟨entry, -, hAfter⟩ | ⟨fault, -, hAfter⟩
      · exact hAfter ▸ h
      · exact hAfter ▸ (h.pass call).remember entry
      · exact hAfter ▸ (h.pass call).release fault

/-- A call that admits nothing keeps the keys in their order: a hit, a write to
a key that is held, a call that fails. -/
theorem access_of_admitted_none {call : Access κ υ}
    (h : admitted source (.access call) (cache, s) = none) :
    let after := (step source (.access call) (cache, s)).2.1
    after.store.keys = cache.store.keys ∧ after.evictions = cache.evictions := by
  intro after
  rcases source.cached_access_cases call cache s with
    ⟨entry, -, -, hAfter⟩ | ⟨entry, hReply, hAfter⟩ | ⟨fault, -, hAfter⟩
  · have hEq : after = cache.countHit := hAfter
    rw [hEq]
    exact ⟨rfl, rfl⟩
  · have hEq : after = (call.pass cache).remember call.key entry := hAfter
    have hFailed : (step source (.access call) (cache, s)).1.failed = false := hReply
    cases hPeek : cache.peek call.key with
    | none => simp [admitted, hPeek, hFailed] at h
    | some former =>
        have hPass : (call.pass cache).peek call.key = some former := by rw [call.peek_pass, hPeek]
        rw [hEq, remember_of_held hPass]
        refine ⟨?_, call.evictions_pass cache⟩
        change ((call.pass cache).store.replace call.key entry).keys = cache.store.keys
        rw [Store.keys_replace, Access.store_pass]
  · have hEq : after = (call.pass cache).release fault := hAfter
    rw [hEq]
    cases call <;> cases fault <;> exact ⟨rfl, rfl⟩

/-- A call that admits a key puts it last, and drives out the first key of a
full cache. -/
theorem access_of_admitted_some {call : Access κ υ}
    (h : admitted source (.access call) (cache, s) = some key) :
    let after := (step source (.access call) (cache, s)).2.1
    let count := if cache.store.isFull then 1 else 0
    cache.peek key = none ∧ after.store.keys = cache.store.keys.drop count ++ [key] ∧
      after.evictions = cache.evictions + count := by
  intro after count
  rw [admitted] at h
  split at h
  · next hAdmits =>
      obtain rfl : call.key = key := Option.some.inj h
      obtain ⟨hMissing, hReply⟩ := Bool.and_eq_true_iff.1 hAdmits
      have hPeek : cache.peek call.key = none := Option.isNone_iff_eq_none.1 hMissing
      have hPass : (call.pass cache).peek call.key = none := by rw [call.peek_pass, hPeek]
      refine ⟨hPeek, ?_⟩
      rcases source.cached_access_cases call cache s with
        ⟨entry, hHeld, -, -⟩ | ⟨entry, -, hAfter⟩ | ⟨fault, hFailed, -⟩
      · cases call with
        | get key => exact absurd (hPeek.symm.trans hHeld) nofun
        | put key value => cases hHeld
        | delete key => cases hHeld
      · have hEq : after = (call.pass cache).remember call.key entry := hAfter
        rw [hEq, remember_of_missing hPass, add_of_missing hPass, Access.store_pass,
          Access.evictions_pass]
        refine ⟨?_, rfl⟩
        simp only [Store.keys, count]
        split <;> simp
      · have hStep : (step source (.access call) (cache, s)).1.failed = true := hFailed
        simp [hStep] at hReply
  · cases h

/-- What an event makes of the keys: some are forgotten, the bound drives out
the first ones, and the key that is admitted comes last. -/
theorem keys_step (h : BoundsAgree cache) (source : Source σ κ υ) (event : Event σ κ υ) (s : σ) :
    let after := (step source event (cache, s)).2.1
    after.store.keys =
        (event.survivors cache.store.keys).drop (evicted source event (cache, s)) ++
          (admitted source event (cache, s)).toList ∧
      after.evictions = cache.evictions + evicted source event (cache, s) := by
  intro after
  cases event with
  | flush =>
      have hEq : after = cache := step_flush source cache s
      rw [hEq]
      simp [Event.survivors, evicted, admitted]
  | outside change =>
      have hEq : after = cache := rfl
      rw [hEq]
      simp [Event.survivors, evicted, admitted]
  | upkeep work =>
      have hEq : after = (cache.perform work).2 := rfl
      rw [hEq, perform_eq]
      cases work with
      | peek | size | stats => simp [Event.survivors, evicted, admitted]
      | invalidate key => simp [store, Store.keys_erase, Event.survivors, evicted, admitted]
      | clear => simp [store, Store.clear, Store.keys, Event.survivors, evicted, admitted]
      | bound capacity =>
          refine ⟨?_, ?_⟩
          · change (cache.store.resize capacity).keys = _
            rw [Store.keys_resize]
            simp [Event.survivors, evicted, admitted, size_eq]
          · change cache.evictions + (cache.store.size - (cache.store.resize capacity).size) = _
            simp only [evicted, size_eq, Store.size, Store.resize, List.length_drop]
            omega
  | access call =>
      have hFull := h.isFull_iff
      cases hAdmitted : admitted source (.access call) (cache, s) with
      | none =>
          obtain ⟨hKeys, hEvictions⟩ := access_of_admitted_none hAdmitted
          simp [after, Event.survivors, evicted, hAdmitted, hKeys, hEvictions]
      | some key =>
          obtain ⟨-, hKeys, hEvictions⟩ := access_of_admitted_some hAdmitted
          simp [after, Event.survivors, evicted, hAdmitted, hKeys, hEvictions, hFull]

theorem not_mem_keys_of_admitted (h : admitted source event (cache, s) = some key) :
    key ∉ cache.store.keys := by
  cases event with
  | access call =>
      intro hMem
      have hPeek : cache.peek key = none := (access_of_admitted_some h).1
      have hHeld := isSome_peek_iff.2 hMem
      rw [hPeek] at hHeld
      cases hHeld
  | flush => cases h
  | upkeep work => cases h
  | outside change => cases h

omit [DecidableEq κ] in
theorem length_keys (cache : ReadCache κ υ) : cache.store.keys.length = cache.size := by
  rw [size_eq, Store.keys, List.length_map, Store.size]

theorem evicted_le_size (source : Source σ κ υ) (event : Event σ κ υ) (cache : ReadCache κ υ) (s : σ) :
    evicted source event (cache, s) ≤ cache.size := by
  unfold evicted
  split
  · exact Nat.sub_le _ _
  · split
    · next hFull =>
        obtain ⟨capacity, -, hCount⟩ := Option.map_eq_some_iff.1 hFull.2
        rw [← hCount]
        exact capacity.count_pos
    · exact Nat.zero_le _

theorem Event.survivors_sublist (event : Event σ κ υ) (keys : List κ) :
    (event.survivors keys).Sublist keys := by
  cases event with
  | access call => exact .refl _
  | flush => exact .refl _
  | outside change => exact .refl _
  | upkeep work =>
      cases work with
      | invalidate key => exact List.filter_sublist
      | clear => exact List.nil_sublist _
      | peek | size | stats | bound => exact .refl _

/-- The keys of a cache stand in the order of their latest admissions. -/
structure Ordered (log : List κ) (cache : ReadCache κ υ) : Prop where
  agree : BoundsAgree cache
  mem_log : ∀ key ∈ cache.store.keys, key ∈ log
  sorted : cache.store.keys.Pairwise fun older newer => age log newer < age log older

theorem Ordered.step {log : List κ} (h : Ordered log cache) (source : Source σ κ υ)
    (event : Event σ κ υ) (s : σ) :
    Ordered (log ++ (admitted source event (cache, s)).toList)
      (step source event (cache, s)).2.1 := by
  obtain ⟨hKeys, -⟩ := keys_step h.agree source event s
  let kept := (event.survivors cache.store.keys).drop (evicted source event (cache, s))
  have hKept : kept.Sublist cache.store.keys :=
    (List.drop_sublist _ _).trans (event.survivors_sublist _)
  have hSorted := h.sorted.sublist hKept
  have hAgree := h.agree.step source event s
  change _ = kept ++ _ at hKeys
  cases hAdmitted : admitted source event (cache, s) with
  | none =>
      rw [hAdmitted, Option.toList_none, List.append_nil] at hKeys
      rw [Option.toList_none, List.append_nil]
      refine ⟨hAgree, ?_, ?_⟩
      · rw [hKeys]
        exact fun key hKey => h.mem_log key (hKept.subset hKey)
      · rw [hKeys]
        exact hSorted
  | some key =>
      rw [hAdmitted, Option.toList_some] at hKeys
      -- the new key is not among the old ones, so all of these grow older by one
      have hOld : ∀ other ∈ kept, age (log ++ [key]) other = age log other + 1 := by
        intro other hOther
        apply age_concat_ne
        rintro rfl
        exact not_mem_keys_of_admitted hAdmitted (hKept.subset hOther)
      refine ⟨hAgree, ?_, ?_⟩
      · intro other hOther
        rw [hKeys, List.mem_append] at hOther
        rw [Option.toList_some, List.mem_append]
        exact hOther.imp_left fun hMem => h.mem_log other (hKept.subset hMem)
      · rw [hKeys, Option.toList_some, List.pairwise_append]
        refine ⟨?_, List.pairwise_singleton _ _, ?_⟩
        · apply hSorted.imp_of_mem
          intro older newer hOlder hNewer hAge
          rw [hOld older hOlder, hOld newer hNewer]
          exact Nat.succ_lt_succ hAge
        · intro older hOlder newest hNewest
          rw [List.mem_singleton.1 hNewest, age_concat_self, hOld older hOlder]
          exact Nat.succ_pos _

/-- Along any run the keys stay in the order of their latest admissions. -/
theorem Ordered.run (source : Source σ κ υ) (events : List (Event σ κ υ))
    (capacity : Option Capacity) (flushSource : Bool) (s : σ) :
    let start : ReadCache κ υ × σ := (ReadCache.fresh capacity flushSource, s)
    Ordered (admissions source events start) (Run.final (ReadCache.step source) events start).1 := by
  intro start
  induction events using List.reverseRecOn with
  | nil =>
      refine ⟨.fresh capacity flushSource, ?_, ?_⟩
      · simp [start, Run.final, Store.keys]
      · simp [start, Run.final, Store.keys]
  | append_singleton events event ih =>
      rw [Run.final_concat, admissions, Run.collect_concat]
      exact ih.step source event _

theorem maxCapacity_remember (entry : Entry υ) (cache : ReadCache κ υ) :
    (cache.remember key entry).maxCapacity = cache.maxCapacity := by
  cases hPeek : cache.peek key with
  | none => rw [remember_of_missing hPeek, add_of_missing hPeek]
  | some former => rw [remember_of_held hPeek]

theorem maxCapacity_step_of_ordinary (h : event.isOrdinary = true) (source : Source σ κ υ)
    (cache : ReadCache κ υ) (s : σ) :
    (step source event (cache, s)).2.1.maxCapacity = cache.maxCapacity := by
  cases event with
  | flush => rw [step_flush]
  | outside change => rfl
  | upkeep work =>
      cases work with
      | peek | size | stats => rfl
      | invalidate | clear | bound => cases h
  | access call =>
      rcases source.cached_access_cases call cache s with
        ⟨entry, -, -, hAfter⟩ | ⟨entry, -, hAfter⟩ | ⟨fault, -, hAfter⟩
      · exact (congrArg maxCapacity hAfter).trans rfl
      · exact (congrArg maxCapacity hAfter).trans
          ((maxCapacity_remember entry _).trans (call.maxCapacity_pass cache))
      · apply (congrArg maxCapacity hAfter).trans
        cases call <;> cases fault <;> rfl

theorem survivors_of_ordinary (h : event.isOrdinary = true) (keys : List κ) :
    event.survivors keys = keys := by
  cases event with
  | access | flush | outside => rfl
  | upkeep work =>
      cases work with
      | peek | size | stats => rfl
      | invalidate | clear | bound => cases h

theorem evicted_of_ordinary (h : event.isOrdinary = true) :
    evicted source event (cache, s) =
      if (admitted source event (cache, s)).isSome ∧
          cache.maxCapacity.map Capacity.count = some cache.size then 1
      else 0 := by
  cases event with
  | access | flush | outside => rfl
  | upkeep work =>
      cases work with
      | peek | size | stats => rfl
      | invalidate | clear | bound => cases h

omit [DecidableEq κ] in
/-- The last `count` of a log and a new admission are the last `count` of the
longer log. -/
theorem drop_concat_of_full {log : List κ} {count : Nat} (hCount : 0 < count)
    (hFull : count ≤ log.length) (key : κ) :
    (log.drop (log.length - count)).drop 1 ++ [key] =
      (log ++ [key]).drop ((log ++ [key]).length - count) := by
  have hNext : (log ++ [key]).length - count = log.length - count + 1 := by
    rw [List.length_append, List.length_singleton]
    omega
  rw [hNext, List.drop_drop, List.drop_append_of_le_length]
  omega

/-- The cache holds the keys of the last admissions, as many as its bound. -/
structure Newest (capacity : Capacity) (log : List κ) (cache : ReadCache κ υ) : Prop where
  agree : BoundsAgree cache
  bound : cache.maxCapacity = some capacity
  keys_eq : cache.store.keys = log.drop (log.length - capacity.count)

theorem Newest.step {capacity : Capacity} {log : List κ} (h : Newest capacity log cache)
    (hOrdinary : event.isOrdinary = true) (source : Source σ κ υ) (s : σ) :
    Newest capacity (log ++ (admitted source event (cache, s)).toList)
      (step source event (cache, s)).2.1 := by
  refine ⟨h.agree.step source event s,
    (maxCapacity_step_of_ordinary hOrdinary source cache s).trans h.bound, ?_⟩
  rw [(keys_step h.agree source event s).1, survivors_of_ordinary hOrdinary,
    evicted_of_ordinary hOrdinary, h.bound, h.keys_eq]
  -- the cache is at its bound if and only if the log is at least that long
  cases admitted source event (cache, s) with
  | none => simp
  | some key =>
      have hSize : cache.size = min capacity.count log.length := by
        rw [← length_keys, h.keys_eq, List.length_drop]
        omega
      simp only [Option.isSome_some, true_and, Option.map_some, Option.some.injEq, Option.toList_some]
      split
      · next hFull =>
          have hLength : capacity.count ≤ log.length := by omega
          exact drop_concat_of_full capacity.count_pos hLength key
      · next hRoom =>
          have hLength : log.length < capacity.count := by omega
          have hLog : log.length - capacity.count = 0 := by omega
          have hNext : (log ++ [key]).length - capacity.count = 0 := by
            rw [List.length_append, List.length_singleton]
            omega
          rw [hLog, hNext, List.drop_zero, List.drop_zero, List.drop_zero]

/-- As long as nothing is forgotten and the bound stays, a bounded cache holds
the keys of its last admissions. -/
theorem Newest.run (source : Source σ κ υ) (events : List (Event σ κ υ))
    (hOrdinary : ∀ event ∈ events, event.isOrdinary = true) (capacity : Capacity)
    (flushSource : Bool) (s : σ) :
    let start : ReadCache κ υ × σ := (ReadCache.fresh (some capacity) flushSource, s)
    Newest capacity (admissions source events start)
      (Run.final (ReadCache.step source) events start).1 := by
  intro start
  induction events using List.reverseRecOn with
  | nil =>
      refine ⟨.fresh (some capacity) flushSource, rfl, ?_⟩
      simp [start, Run.final, Store.keys, admissions, Run.collect]
  | append_singleton events event ih =>
      rw [Run.final_concat, admissions, Run.collect_concat]
      have hEvent : event.isOrdinary = true := hOrdinary event (by simp)
      exact (ih fun other hOther => hOrdinary other (by simp [hOther])).step hEvent source _

/-- The keys held stand in the order of their latest admissions. Whatever admits
nothing, forgets nothing and sets no bound leaves them as they stand. Entries
are driven out only by a key that is admitted at the bound, one, and by a bound
below the size, all that are too many; they are those of the earliest latest
admissions. So, as long as nothing is forgotten, a cache that is bounded from
the start holds a key if and only if it was admitted and fewer admissions than
the bound came after its latest. -/
theorem evicts_earliest_admissions (source : Source σ κ υ) (events : List (Event σ κ υ))
    (flushSource : Bool) (s : σ) :
    (∀ (capacity : Option Capacity) (event : Event σ κ υ),
      let start : ReadCache κ υ × σ := (fresh capacity flushSource, s)
      let log := admissions source events start
      let state := Run.final (step source) events start
      let keys := state.1.store.keys
      let after := (step source event state).2.1
      let count := evicted source event state
      (∀ key ∈ keys, key ∈ log) ∧
      keys.Pairwise (fun older newer => age log newer < age log older) ∧
      (event.isOrdinary = true → admitted source event state = none → after.store.keys = keys) ∧
      after.store.keys =
        (event.survivors keys).drop count ++ (admitted source event state).toList ∧
      after.evictions = state.1.evictions + count ∧
      (keys.take count).length = count ∧
      ∀ victim ∈ keys.take count, ∀ other ∈ keys.drop count, age log other < age log victim) ∧
    ∀ capacity : Capacity, (∀ event ∈ events, event.isOrdinary = true) →
      let start : ReadCache κ υ × σ := (fresh (some capacity) flushSource, s)
      let log := admissions source events start
      ∀ key, ((Run.final (step source) events start).1.peek key).isSome = true ↔
        key ∈ log ∧ age log key < capacity.count := by
  constructor
  · intro capacity event start log state keys after count
    have hOrdered : Ordered log state.1 := Ordered.run source events capacity flushSource s
    obtain ⟨hKeys, hEvictions⟩ := keys_step hOrdered.agree source event state.2
    refine ⟨hOrdered.mem_log, hOrdered.sorted, ?_, hKeys, hEvictions, ?_, ?_⟩
    · intro hOrdinary hAdmitted
      apply hKeys.trans
      rw [survivors_of_ordinary hOrdinary, evicted_of_ordinary hOrdinary, hAdmitted]
      simp [keys]
    · have hCount : count ≤ keys.length := by
        rw [length_keys]
        exact evicted_le_size source event state.1 state.2
      rw [List.length_take, Nat.min_eq_left hCount]
    · have hSorted := hOrdered.sorted
      rw [← List.take_append_drop count state.1.store.keys, List.pairwise_append] at hSorted
      exact hSorted.2.2
  · intro capacity hOrdinary start log key
    have hNewest : Newest capacity log _ :=
      Newest.run source events hOrdinary capacity flushSource s
    rw [isSome_peek_iff, hNewest.keys_eq, mem_drop_iff_age_lt]

/-- Two entries over a table that fails for a while: neither the hit on key 1 nor
the failed lookup of key 3 keeps key 1 from being driven out first. -/
theorem evicts_earliest_admissions_failing :
    let source : Source (Switched (Table Nat Nat)) Nat Nat := Table.source.failing
    let start : ReadCache Nat Nat × Switched (Table Nat Nat) :=
      (fresh (some ⟨2, by decide⟩) false, { inner := .empty })
    let events : List (Event (Switched (Table Nat Nat)) Nat Nat) :=
      [.access (.put 1 10), .access (.get 2), .outside fun s => { s with faulty := true },
        .access (.get 1), .access (.get 3), .outside fun s => { s with faulty := false },
        .access (.put 3 30)]
    (∀ event ∈ events, event.isOrdinary = true) ∧
      ∀ key, ((Run.final (step source) events start).1.peek key).isSome = true ↔
        key ∈ [1, 2, 3] ∧ age [1, 2, 3] key < 2 := by
  intro source start events
  have hOrdinary : ∀ event ∈ events, event.isOrdinary = true := by simp [events, Event.isOrdinary]
  have hLog : admissions source events start = [1, 2, 3] := by cbv
  have hHeld := (evicts_earliest_admissions source events false { inner := .empty }).2
    ⟨2, by decide⟩ hOrdinary
  exact ⟨hOrdinary, hLog ▸ hHeld⟩

end NodeStore.ReadCache
