import NodeStore.Proofs.Cache.Event

/-!
What each call does to a cache and to a stack of caches: one equation for every
way in which a call can go. Later proofs cite these and do not open the calls
again.
-/

namespace NodeStore

section Ask

variable {κ υ σ : Type}

/-- A call about a key, with the entry that a cache may remember of it. -/
def Source.ask (source : Source σ κ υ) : Access κ υ → σ → Outcome (Entry υ) × σ
  | .get key, s => ((source.get key s).1.map Entry.ofOption, (source.get key s).2)
  | .put key value, s =>
      ((source.put key value s).1.map fun _ => .present value, (source.put key value s).2)
  | .delete key, s => ((source.delete key s).1.map fun _ => .absent, (source.delete key s).2)

/-- The answer to a call that became of an entry or a fault. -/
def Access.reply : Access κ υ → Outcome (Entry υ) → Reply υ
  | .get _, outcome => .got (outcome.map Entry.value?)
  | .put _ _, outcome => .wrote (outcome.map fun _ => ())
  | .delete _, outcome => .wrote (outcome.map fun _ => ())

theorem Source.access_eq_ask (source : Source σ κ υ) (call : Access κ υ) (s : σ) :
    source.access call s = (call.reply (source.ask call s).1, (source.ask call s).2) := by
  cases call with
  | get key =>
      rcases hGet : source.get key s with ⟨_ | answer, t⟩
      · simp [access, ask, Access.reply, hGet, Except.map]
      · simp [access, ask, Access.reply, hGet, Except.map, Entry.value?_ofOption]
  | put key value =>
      rcases hPut : source.put key value s with ⟨_ | _, t⟩ <;>
        simp [access, ask, Access.reply, hPut, Except.map]
  | delete key =>
      rcases hDelete : source.delete key s with ⟨_ | _, t⟩ <;>
        simp [access, ask, Access.reply, hDelete, Except.map]

@[simp] theorem Access.fault?_reply_ok (call : Access κ υ) (entry : Entry υ) :
    (call.reply (.ok entry)).fault? = none := by
  cases call <;> rfl

@[simp] theorem Access.fault?_reply_error (call : Access κ υ) (fault : Fault) :
    (call.reply (.error fault)).fault? = some fault := by
  cases call <;> rfl

/-- The entry from which a cache answers a call by itself: only lookups are
answered so. -/
def Access.heldBy [DecidableEq κ] (cache : ReadCache κ υ) : Access κ υ → Option (Entry υ)
  | .get key => cache.peek key
  | .put _ _ => none
  | .delete _ => none

theorem Access.heldBy_get [DecidableEq κ] (cache : ReadCache κ υ) (key : κ) :
    (Access.get key : Access κ υ).heldBy cache = cache.store.find? key :=
  cache.peek_eq key

/-- What a call counts as when it goes on past a cache: only lookups count. -/
def Access.pass : Access κ υ → ReadCache κ υ → ReadCache κ υ
  | .get _ => ReadCache.countMiss
  | .put _ _ => id
  | .delete _ => id

@[simp] theorem Access.store_pass (call : Access κ υ) (cache : ReadCache κ υ) :
    (call.pass cache).store = cache.store := by
  cases call <;> rfl

@[simp] theorem Access.maxCapacity_pass (call : Access κ υ) (cache : ReadCache κ υ) :
    (call.pass cache).maxCapacity = cache.maxCapacity := by
  cases call <;> rfl

@[simp] theorem Access.evictions_pass (call : Access κ υ) (cache : ReadCache κ υ) :
    (call.pass cache).evictions = cache.evictions := by
  cases call <;> rfl

@[simp] theorem Access.peek_pass [DecidableEq κ] (call : Access κ υ) (cache : ReadCache κ υ)
    (key : κ) : (call.pass cache).peek key = cache.peek key :=
  ReadCache.peek_congr (call.store_pass cache)

end Ask

namespace Store

variable {κ υ : Type} [DecidableEq κ]

omit [DecidableEq κ] in
/-- A full store holds at least one entry, since no capacity is zero. -/
theorem exists_head_of_isFull {store : Store κ υ} (h : store.isFull = true) :
    ∃ oldest, store.items.head? = some oldest := by
  cases hItems : store.items with
  | cons oldest items => exact ⟨oldest, rfl⟩
  | nil =>
      cases hCapacity : store.capacity with
      | none => simp [isFull, hCapacity] at h
      | some capacity =>
          have hCount := capacity.count_pos
          have hSize : store.size = capacity.count := by simpa [isFull, hCapacity] using h
          rw [size, hItems, List.length_nil] at hSize
          omega

/-- A key that is not found stands in no record. -/
theorem ne_of_find?_eq_none {store : Store κ υ} {key : κ} (h : store.find? key = none)
    {record : κ × Entry υ} (hRecord : record ∈ store.items) : record.1 ≠ key := by
  have hKey := List.lookup_eq_none_iff.1 h record hRecord
  intro hEq
  simp [hEq] at hKey

/-- What a new key leaves of the old entries has no record of the key. -/
theorem lookup_kept_eq_none {store : Store κ υ} {key : κ} (h : store.find? key = none) :
    (if store.isFull then store.items.drop 1 else store.items).lookup key = none := by
  rw [List.lookup_eq_none_iff]
  intro record hRecord
  apply List.lookup_eq_none_iff.1 h
  split at hRecord
  · exact List.mem_of_mem_drop hRecord
  · exact hRecord

theorem mem_of_find?_eq_some {store : Store κ υ} {key : κ} {entry : Entry υ}
    (h : store.find? key = some entry) : (key, entry) ∈ store.items := by
  obtain ⟨before, after, hItems, _⟩ := List.lookup_eq_some_iff.1 h
  rw [hItems]
  simp

end Store

namespace ReadCache

variable {κ υ σ : Type} [DecidableEq κ] {cache : ReadCache κ υ} {key : κ}

omit [DecidableEq κ] in
@[simp] theorem items_fresh (capacity : Option Capacity) (flushSource : Bool) :
    (fresh capacity flushSource : ReadCache κ υ).store.items = [] := by
  cases capacity with
  | none => rfl
  | some capacity => exact List.drop_nil

/-- A key that was not held becomes the newest; a full store loses its oldest
entry for it, which counts as evicted. -/
theorem add_of_missing (h : cache.peek key = none) (entry : Entry υ) :
    cache.add key entry =
      { cache with
        content.store := { cache.store with
          items := (if cache.store.isFull then cache.store.items.drop 1
            else cache.store.items) ++ [(key, entry)] }
        content.evictions := cache.evictions + if cache.store.isFull then 1 else 0 } := by
  have hFind : cache.store.find? key = none := by rw [← peek_eq, h]
  cases hFull : cache.store.isFull with
  | false => simp [add, Store.push, hFind, hFull]
  | true =>
      obtain ⟨oldest, hOldest⟩ := Store.exists_head_of_isFull hFull
      simp [add, Store.push, hFind, hFull, hOldest]

theorem remember_of_missing (h : cache.peek key = none) (entry : Entry υ) :
    cache.remember key entry = cache.add key entry := by
  have hFind : cache.store.find? key = none := by rw [← peek_eq, h]
  rw [remember, hFind]

theorem remember_of_held {former : Entry υ} (h : cache.peek key = some former)
    (entry : Entry υ) :
    cache.remember key entry = { cache with content.store := cache.store.replace key entry } := by
  have hFind : cache.store.find? key = some former := by rw [← peek_eq, h]
  rw [remember, hFind]

/-- What is remembered is held, also if the key comes in only as another leaves. -/
theorem peek_remember_self (key : κ) (entry : Entry υ) (cache : ReadCache κ υ) :
    (cache.remember key entry).peek key = some entry := by
  cases hPeek : cache.peek key with
  | none =>
      have hFind : cache.store.find? key = none := by rw [← peek_eq, hPeek]
      rw [remember_of_missing hPeek, add_of_missing hPeek, peek_eq]
      change List.lookup key _ = some entry
      rw [List.lookup_append, Store.lookup_kept_eq_none hFind, Option.none_or,
        List.lookup_cons_self]
  | some former =>
      rw [remember_of_held hPeek, peek_eq]
      change (Records.replace key entry cache.store.items).lookup key = some entry
      rw [Records.lookup_replace_self, ← Store.find?, ← peek_eq, hPeek, Option.map_some]

/-- After a write, a record is the one written or an old one of another key. -/
theorem mem_items_remember {entry : Entry υ} {record : κ × Entry υ}
    (h : record ∈ (cache.remember key entry).store.items) :
    record = (key, entry) ∨ record ∈ cache.store.items ∧ record.1 ≠ key := by
  cases hPeek : cache.peek key with
  | none =>
      rw [remember_of_missing hPeek, add_of_missing hPeek] at h
      rcases List.mem_append.1 h with hOld | hNew
      · have hMem : record ∈ cache.store.items := by
          split at hOld
          · exact List.mem_of_mem_drop hOld
          · exact hOld
        have hFind : cache.store.find? key = none := by rw [← peek_eq, hPeek]
        exact .inr ⟨hMem, Store.ne_of_find?_eq_none hFind hMem⟩
      · exact .inl (List.mem_singleton.1 hNew)
  | some former =>
      rw [remember_of_held hPeek] at h
      obtain ⟨old, hOld, rfl⟩ := List.mem_map.1 h
      by_cases hKey : old.1 = key
      · exact .inl (if_pos hKey)
      · rw [if_neg hKey]
        exact .inr ⟨hOld, hKey⟩

/-- Work on a cache alone brings in no record. -/
theorem items_perform_subset (work : Upkeep κ) (cache : ReadCache κ υ) :
    (cache.perform work).2.store.items ⊆ cache.store.items := by
  rw [perform_eq]
  cases work with
  | peek | size | stats => exact List.Subset.refl _
  | invalidate key => exact List.filter_sublist.subset
  | clear => exact List.nil_subset _
  | bound capacity => exact List.drop_subset _ _

end ReadCache

namespace Source

variable {κ υ σ : Type} [DecidableEq κ] {source : Source σ κ υ} {call : Access κ υ}
  {cache : ReadCache κ υ} {entry : Entry υ} {fault : Fault} {s s' : σ}

/-- A hit: the answer comes from memory and nothing but a count changes. -/
theorem cached_ask_of_held (h : call.heldBy cache = some entry) :
    source.cached.ask call (cache, s) = (.ok entry, cache.countHit, s) := by
  cases call with
  | get key =>
      have hFind : cache.store.find? key = some entry := by rw [← Access.heldBy_get, h]
      simp [ask, cached, ReadCache.get_eq, hFind, Except.map, Entry.ofOption_value?]
  | put key value => cases h
  | delete key => cases h

/-- What the source answers is remembered under the key: in place if the key is
held, else as the newest. -/
theorem cached_ask_of_ok (h : call.heldBy cache = none) (hAsk : source.ask call s = (.ok entry, s')) :
    source.cached.ask call (cache, s) = (.ok entry, (call.pass cache).remember call.key entry, s') := by
  cases call with
  | get key =>
      have hFind : cache.store.find? key = none := by rw [← Access.heldBy_get, h]
      have hMissing : cache.countMiss.peek key = none := (cache.peek_countMiss key).trans h
      rcases hGet : source.get key s with ⟨_ | answer, t⟩
      · simp [ask, hGet, Except.map] at hAsk
      · simp only [ask, hGet, Except.map, Prod.mk.injEq, Except.ok.injEq] at hAsk
        obtain ⟨rfl, rfl⟩ := hAsk
        simp [ask, cached, ReadCache.get_eq, hFind, hGet, Except.map, Access.pass, Access.key,
          ReadCache.remember_of_missing hMissing]
  | put key value =>
      rcases hPut : source.put key value s with ⟨_ | _, t⟩
      · simp [ask, hPut, Except.map] at hAsk
      · simp only [ask, hPut, Except.map, Prod.mk.injEq, Except.ok.injEq] at hAsk
        obtain ⟨rfl, rfl⟩ := hAsk
        simp [ask, cached, ReadCache.write_eq, hPut, Except.map, Access.pass, Access.key]
  | delete key =>
      rcases hDelete : source.delete key s with ⟨_ | _, t⟩
      · simp [ask, hDelete, Except.map] at hAsk
      · simp only [ask, hDelete, Except.map, Prod.mk.injEq, Except.ok.injEq] at hAsk
        obtain ⟨rfl, rfl⟩ := hAsk
        simp [ask, cached, ReadCache.write_eq, hDelete, Except.map, Access.pass, Access.key]

/-- A fault of the source is handed on, and nothing is remembered of it. -/
theorem cached_ask_of_fault (h : call.heldBy cache = none)
    (hAsk : source.ask call s = (.error fault, s')) :
    source.cached.ask call (cache, s) = (.error fault, (call.pass cache).release fault, s') := by
  cases call with
  | get key =>
      have hFind : cache.store.find? key = none := by rw [← Access.heldBy_get, h]
      rcases hGet : source.get key s with ⟨raised | answer, t⟩
      · simp only [ask, hGet, Except.map, Prod.mk.injEq, Except.error.injEq] at hAsk
        obtain ⟨rfl, rfl⟩ := hAsk
        simp [ask, cached, ReadCache.get_eq, hFind, hGet, Except.map, Access.pass]
      · simp [ask, hGet, Except.map] at hAsk
  | put key value =>
      rcases hPut : source.put key value s with ⟨raised | _, t⟩
      · simp only [ask, hPut, Except.map, Prod.mk.injEq, Except.error.injEq] at hAsk
        obtain ⟨rfl, rfl⟩ := hAsk
        simp [ask, cached, ReadCache.write_eq, hPut, Except.map, Access.pass]
      · simp [ask, hPut, Except.map] at hAsk
  | delete key =>
      rcases hDelete : source.delete key s with ⟨raised | _, t⟩
      · simp only [ask, hDelete, Except.map, Prod.mk.injEq, Except.error.injEq] at hAsk
        obtain ⟨rfl, rfl⟩ := hAsk
        simp [ask, cached, ReadCache.write_eq, hDelete, Except.map, Access.pass]
      · simp [ask, hDelete, Except.map] at hAsk

/-- The three ways in which a call on a cache can go. -/
theorem cached_access_cases (source : Source σ κ υ) (call : Access κ υ) (cache : ReadCache κ υ)
    (s : σ) :
    let reached := source.cached.access call (cache, s)
    (∃ entry, call.heldBy cache = some entry ∧ reached.1.failed = false ∧
      reached.2.1 = cache.countHit) ∨
    (∃ entry, reached.1.failed = false ∧
      reached.2.1 = (call.pass cache).remember call.key entry) ∨
    ∃ fault, reached.1.failed = true ∧ reached.2.1 = (call.pass cache).release fault := by
  intro reached
  have hReached : reached = _ := source.cached.access_eq_ask call (cache, s)
  cases hHeld : call.heldBy cache with
  | some entry =>
      rw [cached_ask_of_held hHeld] at hReached
      refine .inl ⟨entry, rfl, ?_, ?_⟩
      · rw [hReached, Reply.failed, Access.fault?_reply_ok]
        rfl
      · rw [hReached]
  | none =>
      rcases hAsk : source.ask call s with ⟨fault | entry, s'⟩
      · rw [cached_ask_of_fault hHeld hAsk] at hReached
        refine .inr (.inr ⟨fault, ?_, ?_⟩)
        · rw [hReached, Reply.failed, Access.fault?_reply_error]
          rfl
        · rw [hReached]
      · rw [cached_ask_of_ok hHeld hAsk] at hReached
        refine .inr (.inl ⟨entry, ?_, ?_⟩)
        · rw [hReached, Reply.failed, Access.fault?_reply_ok]
          rfl
        · rw [hReached]

/-- The top of a stack is a cache over the stack below it. -/
theorem stacked_ask_cons (source : Source σ κ υ) (call : Access κ υ) (top : ReadCache κ υ)
    (below : Stack κ υ) (s : σ) :
    source.stacked.ask call (top :: below, s) =
      let reached := source.stacked.cached.ask call (top, below, s)
      (reached.1, reached.2.1 :: reached.2.2.1, reached.2.2.2) := by
  cases call <;> rfl

theorem stacked_ask_nil (source : Source σ κ υ) (call : Access κ υ) (s : σ) :
    source.stacked.ask call ([], s) = ((source.ask call s).1, [], (source.ask call s).2) := by
  cases call <;> rfl

/-- Layers that cannot answer a call themselves all remember what is answered
below them. -/
theorem stacked_ask_append_of_ok {above below below' : Stack κ υ}
    (hAbove : ∀ cache ∈ above, call.heldBy cache = none)
    (hBelow : source.stacked.ask call (below, s) = (.ok entry, below', s')) :
    source.stacked.ask call (above ++ below, s) =
      (.ok entry, above.map (fun cache => (call.pass cache).remember call.key entry) ++ below',
        s') := by
  induction above with
  | nil => exact hBelow
  | cons top above ih =>
      have hTop : call.heldBy top = none := hAbove top (List.mem_cons_self ..)
      have hAsk := ih fun cache hCache => hAbove cache (List.mem_cons_of_mem _ hCache)
      rw [List.cons_append, stacked_ask_cons, cached_ask_of_ok hTop hAsk]
      rfl

/-- If the source answers, every layer remembers the answer. -/
theorem stacked_ask_of_ok {stack : Stack κ υ} (hStack : ∀ cache ∈ stack, call.heldBy cache = none)
    (hAsk : source.ask call s = (.ok entry, s')) :
    source.stacked.ask call (stack, s) =
      (.ok entry, stack.map fun cache => (call.pass cache).remember call.key entry, s') := by
  have hBelow : source.stacked.ask call ([], s) = (.ok entry, [], s') := by
    rw [stacked_ask_nil, hAsk]
  simpa using stacked_ask_append_of_ok hStack hBelow

/-- If some layer answers, those above it remember the answer, and nothing below
it is asked. -/
theorem stacked_ask_of_held {above below : Stack κ υ} {holder : ReadCache κ υ}
    (hAbove : ∀ cache ∈ above, call.heldBy cache = none) (hHolder : call.heldBy holder = some entry) :
    source.stacked.ask call (above ++ holder :: below, s) =
      (.ok entry, above.map (fun cache => (call.pass cache).remember call.key entry) ++
        holder.countHit :: below, s) := by
  apply stacked_ask_append_of_ok hAbove
  rw [stacked_ask_cons, cached_ask_of_held hHolder]

/-- If the source fails, every layer lets go of its lock and remembers nothing. -/
theorem stacked_ask_of_fault {stack : Stack κ υ}
    (hStack : ∀ cache ∈ stack, call.heldBy cache = none)
    (hAsk : source.ask call s = (.error fault, s')) :
    source.stacked.ask call (stack, s) =
      (.error fault, stack.map fun cache => (call.pass cache).release fault, s') := by
  induction stack with
  | nil => rw [stacked_ask_nil, hAsk]; rfl
  | cons top below ih =>
      have hTop : call.heldBy top = none := hStack top (List.mem_cons_self ..)
      have hBelow := ih fun cache hCache => hStack cache (List.mem_cons_of_mem _ hCache)
      rw [stacked_ask_cons, cached_ask_of_fault hTop hBelow]
      rfl

end Source

namespace Stack

variable {κ υ σ : Type} [DecidableEq κ] {source : Source σ κ υ} {s : σ}

/-- Either no layer can answer a call itself, or there is a first one that
can. -/
theorem missing_or_held (call : Access κ υ) (stack : Stack κ υ) :
    (∀ cache ∈ stack, call.heldBy cache = none) ∨
      ∃ above holder below entry, stack = above ++ holder :: below ∧
        (∀ cache ∈ above, call.heldBy cache = none) ∧ call.heldBy holder = some entry := by
  induction stack with
  | nil => exact .inl (by simp)
  | cons top stack ih =>
      cases hTop : call.heldBy top with
      | some entry => exact .inr ⟨[], top, stack, entry, rfl, by simp, hTop⟩
      | none =>
          rcases ih with hMissing | ⟨above, holder, below, entry, rfl, hAbove, hHolder⟩
          · exact .inl (List.forall_mem_cons.2 ⟨hTop, hMissing⟩)
          · exact .inr ⟨top :: above, holder, below, entry, rfl,
              List.forall_mem_cons.2 ⟨hTop, hAbove⟩, hHolder⟩

omit [DecidableEq κ] in
/-- A flush reaches the source if every layer hands it on; it changes no
layer. -/
theorem flush_eq (stack : Stack κ υ) :
    flush source stack s =
      if stack.all ReadCache.flushSource then ((source.flush s).1, stack, (source.flush s).2)
      else (.ok false, stack, s) := by
  induction stack with
  | nil => rfl
  | cons top below ih =>
      cases hTop : top.flushSource with
      | false => simp [flush, ReadCache.flush, hTop]
      | true =>
          simp only [flush, ReadCache.flush, hTop, ih, List.all_cons, Bool.true_and, if_true]
          split <;> rfl

omit [DecidableEq κ] in
/-- The same for a flush that starts at one of the layers. -/
theorem flushFrom_eq (source : Source σ κ υ) (layer : Nat) (stack : Stack κ υ) (s : σ) :
    flushFrom source layer stack s =
      if (stack.drop layer).all ReadCache.flushSource then
        (.flushed (source.flush s).1, stack, (source.flush s).2)
      else (.flushed (.ok false), stack, s) := by
  rw [flushFrom, flush_eq]
  cases (stack.drop layer).all ReadCache.flushSource with
  | false => simp
  | true => simp

end Stack

end NodeStore
