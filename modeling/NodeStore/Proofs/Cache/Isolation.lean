import NodeStore.Proofs.Cache.Invariant
import NodeStore.Proofs.Cache.Trace

/-!
What a cache remembers of a key, told from what happened to the key at this
cache. The source may be changed behind the cache's back at any moment; that
shows in what later lookups fetch, but never in an entry that is held. Main
statement: the entry held under a key is what the last event that concerned the
key left of it.
-/

namespace NodeStore

variable {κ υ σ : Type}

/-- What an event at a cache makes of a key. -/
inductive Fate (υ : Type) where
  /-- A lookup of the key missed, and the source answered. -/
  | fetched (answer : Option υ)
  /-- A write of the key went through. -/
  | stored (entry : Entry υ)
  /-- The key was invalidated or cleared, or a bound drove it out. -/
  | left

def Fate.entry? : Fate υ → Option (Entry υ)
  | .fetched answer => some (.ofOption answer)
  | .stored entry => some entry
  | .left => none

/-- What a call that gets to the source makes of its key: nothing if it fails
there. -/
def Access.fate? (source : Source σ κ υ) : Access κ υ → σ → Option (Fate υ)
  | .get key, s => (source.get key s).1.toOption.map .fetched
  | .put key value, s => (source.put key value s).1.toOption.map fun _ => .stored (.present value)
  | .delete key, s => (source.delete key s).1.toOption.map fun _ => .stored .absent

theorem Access.fate?_eq_ask (source : Source σ κ υ) (call : Access κ υ) (s : σ) :
    (call.fate? source s).map Fate.entry? = (source.ask call s).1.toOption.map some := by
  cases call with
  | get key => rcases hGet : source.get key s with ⟨_ | answer, t⟩ <;>
      simp [fate?, Source.ask, hGet, Except.map, Except.toOption, Fate.entry?]
  | put key value => rcases hPut : source.put key value s with ⟨_ | _, t⟩ <;>
      simp [fate?, Source.ask, hPut, Except.map, Except.toOption, Fate.entry?]
  | delete key => rcases hDelete : source.delete key s with ⟨_ | _, t⟩ <;>
      simp [fate?, Source.ask, hDelete, Except.map, Except.toOption, Fate.entry?]

theorem Access.fate?_of_ok {source : Source σ κ υ} {call : Access κ υ} {entry : Entry υ} {s s' : σ}
    (hAsk : source.ask call s = (.ok entry, s')) :
    ∃ fate, call.fate? source s = some fate ∧ fate.entry? = some entry := by
  have hFate := call.fate?_eq_ask source s
  rw [hAsk] at hFate
  exact Option.map_eq_some_iff.1 hFate

theorem Access.fate?_of_fault {source : Source σ κ υ} {call : Access κ υ} {fault : Fault} {s s' : σ}
    (hAsk : source.ask call s = (.error fault, s')) : call.fate? source s = none := by
  have hFate := call.fate?_eq_ask source s
  rw [hAsk] at hFate
  exact Option.map_eq_none_iff.1 hFate

namespace ReadCache

variable [DecidableEq κ]

/-- What an event makes of a key by a call about the key itself. A lookup of a
key that is held makes nothing of it. -/
def acquired (source : Source σ κ υ) (key : κ) (event : Event σ κ υ) (state : ReadCache κ υ × σ) :
    Option (Fate υ) :=
  match event with
  | .access call =>
      if call.key = key ∧ (call.heldBy state.1).isNone then call.fate? source state.2 else none
  | _ => none

/-- The keys that leave a cache at an event: one that is invalidated, all that
are cleared, and those of the earliest admissions, as many as a bound drives
out. -/
def departed (source : Source σ κ υ) (event : Event σ κ υ) (state : ReadCache κ υ × σ) : List κ :=
  match event with
  | .upkeep (.invalidate key) => [key]
  | .upkeep .clear => state.1.store.keys
  | event => state.1.store.keys.take (evicted source event state)

/-- What an event makes of a key. -/
def fate? (source : Source σ κ υ) (key : κ) (event : Event σ κ υ) (state : ReadCache κ υ × σ) :
    Option (Fate υ) :=
  (acquired source key event state).or
    (if key ∈ departed source event state then some .left else none)

/-- What a run makes of a key, from event to event. -/
def fates (source : Source σ κ υ) (key : κ) : List (Event σ κ υ) → ReadCache κ υ × σ → List (Fate υ) :=
  Run.collect (step source) (fate? source key)

variable {source : Source σ κ υ} {event : Event σ κ υ} {cache : ReadCache κ υ} {key : κ} {s : σ}

omit [DecidableEq κ] in
/-- Of distinct keys, those after the first ones are those that are not among the
first. -/
theorem mem_drop_iff_not_mem_take {keys : List κ} (h : keys.Nodup) (count : Nat) :
    key ∈ keys.drop count ↔ key ∈ keys ∧ key ∉ keys.take count := by
  have hApart := List.disjoint_take_drop h (Nat.le_refl count)
  have hSplit : key ∈ keys ↔ key ∈ keys.take count ∨ key ∈ keys.drop count := by
    rw [← List.mem_append, List.take_append_drop]
  rw [hSplit]
  constructor
  · exact fun hDrop => ⟨.inr hDrop, fun hTake => hApart hTake hDrop⟩
  · exact fun hBoth => hBoth.1.resolve_left hBoth.2

/-- A key that an event leaves, apart from one that it admits, was there and did
not depart. -/
theorem mem_kept_iff (h : cache.store.keys.Nodup) :
    key ∈ (event.survivors cache.store.keys).drop (evicted source event (cache, s)) ↔
      key ∈ cache.store.keys ∧ key ∉ departed source event (cache, s) := by
  cases event with
  | access | flush | outside => exact mem_drop_iff_not_mem_take h _
  | upkeep work =>
      cases work with
      | peek | size | stats | bound => exact mem_drop_iff_not_mem_take h _
      | invalidate other => simp [Event.survivors, evicted, admitted, departed]
      | clear => simp [Event.survivors, departed]

theorem acquired_access {call : Access κ υ} (hHeld : call.heldBy cache = none) :
    acquired source call.key (.access call) (cache, s) = call.fate? source s := by
  simp [acquired, hHeld]

/-- An admission is made by a call that got through to the source. -/
theorem acquired_of_admitted (h : admitted source event (cache, s) = some key) :
    acquired source key event (cache, s) ≠ none := by
  cases event with
  | flush | upkeep | outside => cases h
  | access call =>
      rw [admitted] at h
      split at h
      · next hAdmits =>
          obtain rfl : call.key = key := Option.some.inj h
          obtain ⟨hMissing, hDone⟩ := Bool.and_eq_true_iff.1 hAdmits
          have hHeld : call.heldBy cache = none := by
            cases call with
            | get key => exact Option.isNone_iff_eq_none.1 hMissing
            | put key value | delete key => rfl
          rcases hAsk : source.ask call s with ⟨fault | entry, s'⟩
          · rw [step, Source.access_eq_ask, Source.cached_ask_of_fault hHeld hAsk] at hDone
            simp [Reply.failed] at hDone
          · obtain ⟨fate, hFate, -⟩ := Access.fate?_of_ok hAsk
            rw [acquired_access hHeld, hFate]
            exact Option.some_ne_none fate
      · cases h

/-- A key that an event does not acquire stays exactly if it does not depart. -/
theorem mem_keys_step (h : WellFormed cache) (hNone : acquired source key event (cache, s) = none) :
    key ∈ (step source event (cache, s)).2.1.store.keys ↔
      key ∈ cache.store.keys ∧ key ∉ departed source event (cache, s) := by
  rw [(keys_step h.agree source event s).1, List.mem_append, mem_kept_iff h.nodup]
  constructor
  · rintro (hKept | hNew)
    · exact hKept
    · exact absurd hNone (acquired_of_admitted (Option.mem_toList.1 hNew))
  · exact .inl

/-- The entry under a key changes only as the key is acquired. -/
theorem mem_items_of_step (hNone : acquired source key event (cache, s) = none) {entry : Entry υ}
    (h : (key, entry) ∈ (step source event (cache, s)).2.1.store.items) :
    (key, entry) ∈ cache.store.items := by
  cases event with
  | flush => rwa [step_flush] at h
  | outside change => exact h
  | upkeep work => exact items_perform_subset work cache h
  | access call =>
      rw [step, Source.access_eq_ask] at h
      cases hHeld : call.heldBy cache with
      | some held =>
          rw [Source.cached_ask_of_held hHeld] at h
          exact h
      | none =>
          rcases hAsk : source.ask call s with ⟨fault | answer, s'⟩
          · rw [Source.cached_ask_of_fault hHeld hAsk] at h
            cases fault <;> simpa [release, store] using h
          · rw [Source.cached_ask_of_ok hHeld hAsk] at h
            rcases mem_items_remember h with hNew | ⟨hOld, -⟩
            · obtain rfl : key = call.key := congrArg Prod.fst hNew
              obtain ⟨fate, hFate, -⟩ := Access.fate?_of_ok hAsk
              rw [acquired_access hHeld, hFate] at hNone
              cases hNone
            · rwa [Access.store_pass] at hOld

/-- A call that acquires its key leaves under it the entry of its fate. -/
theorem peek_step_of_acquired {fate : Fate υ}
    (h : acquired source key event (cache, s) = some fate) :
    (step source event (cache, s)).2.1.peek key = fate.entry? := by
  cases event with
  | flush | upkeep | outside => cases h
  | access call =>
      rw [acquired] at h
      split at h
      · next hCall =>
          obtain ⟨rfl, hMissing⟩ := hCall
          have hHeld : call.heldBy cache = none := Option.isNone_iff_eq_none.1 hMissing
          rcases hAsk : source.ask call s with ⟨fault | entry, s'⟩
          · rw [Access.fate?_of_fault hAsk] at h
            cases h
          · obtain ⟨made, hFate, hEntry⟩ := Access.fate?_of_ok hAsk
            obtain rfl : made = fate := Option.some.inj (hFate.symm.trans h)
            rw [step, Source.access_eq_ask, Source.cached_ask_of_ok hHeld hAsk, hEntry]
            exact peek_remember_self ..
      · cases h

/-- What an event makes of a key shows in the entry under it; if it makes nothing
of the key, the entry stays. -/
theorem peek_step (h : WellFormed cache) (source : Source σ κ υ) (event : Event σ κ υ) (key : κ)
    (s : σ) :
    (step source event (cache, s)).2.1.peek key =
      ((fate? source key event (cache, s)).map Fate.entry?).getD (cache.peek key) := by
  rw [fate?]
  cases hAcquired : acquired source key event (cache, s) with
  | some fate => exact peek_step_of_acquired hAcquired
  | none =>
      have hKeys := mem_keys_step h hAcquired
      rw [← isSome_peek_iff] at hKeys
      by_cases hDeparts : key ∈ departed source event (cache, s)
      · rw [if_pos hDeparts]
        apply Option.not_isSome_iff_eq_none.1
        exact fun hSome => (hKeys.1 hSome).2 hDeparts
      · rw [if_neg hDeparts]
        change _ = cache.peek key
        cases hAfter : (step source event (cache, s)).2.1.peek key with
        | none =>
            rw [hAfter, ← isSome_peek_iff] at hKeys
            by_contra hHeld
            have hSome := Option.isSome_iff_ne_none.2 (Ne.symm hHeld)
            exact absurd (hKeys.2 ⟨hSome, hDeparts⟩) nofun
        | some entry =>
            rw [peek_eq] at hAfter
            have hOld := mem_items_of_step hAcquired (Store.mem_of_find?_eq_some hAfter)
            rw [peek_eq, Store.find?, Records.lookup_of_mem h.nodup hOld]

/-- Along any run, the entry under a key is what was last made of the key. -/
theorem peek_final (source : Source σ κ υ) (events : List (Event σ κ υ))
    (capacity : Option Capacity) (flushSource : Bool) (s : σ) (key : κ) :
    let start : ReadCache κ υ × σ := (fresh capacity flushSource, s)
    let state := Run.final (step source) events start
    WellFormed state.1 ∧
      state.1.peek key = (fates source key events start).getLast?.bind Fate.entry? := by
  intro start
  induction events using List.reverseRecOn with
  | nil =>
      refine ⟨wellFormed_fresh capacity flushSource, ?_⟩
      simp [start, Run.final, fates, Run.collect, peek_eq, Store.find?]
  | append_singleton events event ih =>
      obtain ⟨hFormed, hPeek⟩ := ih
      rw [Run.final_concat, fates, Run.collect_concat]
      refine ⟨hFormed.step source event _, ?_⟩
      rw [peek_step hFormed, hPeek, fates]
      cases fate? source key event (Run.final (step source) events start) <;> simp

/-- A lookup of a key that is held does not get to the source, whatever the source
holds by now. -/
theorem get_of_held {entry : Entry υ} (h : cache.peek key = some entry) (now : Noted σ κ υ) :
    step source.noted (.access (.get key)) (cache, now) =
      (.got (.ok entry.value?), cache.countHit, now) := by
  have hHeld : (Access.get key : Access κ υ).heldBy cache = some entry := h
  rw [step, Source.access_eq_ask, Source.cached_ask_of_held hHeld]
  rfl

/-- A lookup of a key that is not held is one lookup of the source as it is
now. -/
theorem get_of_missing (h : cache.peek key = none) (now : Noted σ κ υ) :
    let reached := step source.noted (.access (.get key)) (cache, now)
    reached.1 = .got (source.get key now.inner).1 ∧
      reached.2.2 = now.note [.access (.get key)] (source.get key now.inner).2 := by
  have hFind : cache.store.find? key = none := by rw [← peek_eq, h]
  rcases hGet : source.get key now.inner with ⟨fault | answer, inner⟩ <;>
    simp [step, Source.access, Source.cached, get_eq, hFind, Source.noted, hGet]

/-- What a cache holds under a key is what was last made of the key at this
cache, however the source is changed past it: nothing, if nothing was made of
the key yet or if it last left; what the source answered as a lookup last missed
it; or what was last written. So a lookup of a key that is held brings out that
entry and leaves the source alone, whatever the source holds by now, and while a
key has left, a lookup of it brings out what the source answers at that
moment. -/
theorem peek_eq_last_fate (source : Source σ κ υ) (events : List (Event σ κ υ))
    (capacity : Option Capacity) (flushSource : Bool) (s : σ) (key : κ) :
    let start : ReadCache κ υ × σ := (fresh capacity flushSource, s)
    let cache := (Run.final (step source) events start).1
    let held := (fates source key events start).getLast?.bind Fate.entry?
    cache.peek key = held ∧
      ∀ now : Noted σ κ υ,
        let reached := step source.noted (.access (.get key)) (cache, now)
        (∀ entry, held = some entry → reached = (.got (.ok entry.value?), cache.countHit, now)) ∧
        (held = none →
          reached.1 = .got (source.get key now.inner).1 ∧
          reached.2.2 = now.note [.access (.get key)] (source.get key now.inner).2) := by
  intro start cache held
  have hHeld : cache.peek key = held := (peek_final source events capacity flushSource s key).2
  refine ⟨hHeld, fun now => ⟨fun entry hEntry => ?_, fun hNone => ?_⟩⟩
  · exact get_of_held (hHeld.trans hEntry) now
  · exact get_of_missing (hHeld.trans hNone) now

/-- A cache for two entries over a table that is changed past it. Key 1 stays as
it was written, and key 2 absent as it was fetched, until key 3 drives key 1
out; then the table's change of key 1 comes to light. -/
theorem peek_eq_last_fate_changed_outside :
    let source : Source (Table Nat Nat) Nat Nat := Table.source
    let bound : Capacity := ⟨2, by decide⟩
    let start : ReadCache Nat Nat × Table Nat Nat := (fresh (some bound) false, .empty)
    let events : List (Event (Table Nat Nat) Nat Nat) :=
      [.access (.get 1), .access (.put 1 10), .access (.get 2),
        .outside (·.insertMany [(1, 11), (2, 20)]), .access (.get 1)]
    let state := Run.final (step source) events start
    let later := Run.final (step source) (events ++ [.access (.delete 3)]) start
    let now : Noted (Table Nat Nat) Nat Nat := { inner := later.2 }
    let missed := step source.noted (.access (.get 1)) (later.1, now)
    fates source 1 (events ++ [.access (.delete 3)]) start =
        [.fetched none, .stored (.present 10), .left] ∧
      state.1.peek 1 = some (.present 10) ∧ state.1.peek 2 = some .absent ∧
      now.inner.get? 1 = some 11 ∧
      step source.noted (.access (.get 1)) (state.1, now) =
        (.got (.ok (some 10)), state.1.countHit, now) ∧
      later.1.peek 1 = none ∧ missed.1 = .got (.ok (some 11)) ∧
      missed.2.2 = now.note [.access (.get 1)] now.inner := by
  intro source bound start events state later now missed
  have hHeld (key : Nat) := peek_eq_last_fate source events (some bound) false .empty key
  obtain ⟨hLeft, hLook⟩ :=
    peek_eq_last_fate source (events ++ [.access (.delete 3)]) (some bound) false .empty 1
  obtain ⟨hAnswer, hAsked⟩ := (hLook now).2 (by cbv)
  have hKept (table : Table Nat Nat) : (source.get 1 table).2 = table := rfl
  refine ⟨by cbv, (hHeld 1).1.trans (by cbv), (hHeld 2).1.trans (by cbv), by cbv, ?_, ?_, ?_, ?_⟩
  · exact ((hHeld 1).2 now).1 (.present 10) (by cbv)
  · exact hLeft.trans (by cbv)
  · exact hAnswer.trans (by cbv)
  · rw [hKept] at hAsked
    simp only [missed, later, start]
    exact hAsked

end ReadCache

end NodeStore
