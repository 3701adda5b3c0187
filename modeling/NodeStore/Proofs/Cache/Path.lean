import NodeStore.Proofs.Cache.Balance
import NodeStore.Source.Counted

/-!
The way of a call through a stack of caches. A lookup goes down to the first
layer that holds its key, and the layers above that one take the answer in; a
write goes through all layers; a flush needs all of them to hand it on. Main
statement: what a call makes of every layer, and which calls the source sees of
it, whatever the layers hold.
-/

namespace NodeStore

variable {κ υ σ : Type} [DecidableEq κ]

namespace ReadCache

omit [DecidableEq κ] in
/-- A cache after a lookup that was answered below it: it has counted a miss, and
the key is its newest, for which a full store has lost its oldest. -/
def afterMiss (key : κ) (entry : Entry υ) (cache : ReadCache κ υ) : ReadCache κ υ :=
  let lost := if cache.store.isFull then 1 else 0
  { cache with
    content.store := { cache.store with items := cache.store.items.drop lost ++ [(key, entry)] }
    content.misses := cache.misses + 1
    content.evictions := cache.evictions + lost }

theorem remember_of_lookup {key : κ} {cache : ReadCache κ υ} (h : cache.peek key = none)
    (entry : Entry υ) :
    ((Access.get key).pass cache).remember key entry = cache.afterMiss key entry := by
  have hMissing : cache.countMiss.peek key = none := (cache.peek_countMiss key).trans h
  change cache.countMiss.remember key entry = _
  rw [remember_of_missing hMissing, add_of_missing hMissing, afterMiss]
  cases hFull : cache.store.isFull <;> simp [countMiss, hFull]

/-- What a write leaves in a cache: its entry under the key, and the counts of
lookups as they were. -/
structure TookWrite (key : κ) (entry : Entry υ) (before after : ReadCache κ υ) : Prop where
  peek_eq : after.peek key = some entry
  hits_eq : after.hits = before.hits
  misses_eq : after.misses = before.misses

end ReadCache

/-- The entry that a write leaves under its key. -/
def Access.written? : Access κ υ → Option (Entry υ)
  | .get _ => none
  | .put _ value => some (.present value)
  | .delete _ => some .absent

theorem Access.heldBy_of_written {call : Access κ υ} {entry : Entry υ}
    (h : call.written? = some entry) (cache : ReadCache κ υ) : call.heldBy cache = none := by
  cases call with
  | get key => cases h
  | put key value | delete key => rfl

omit [DecidableEq κ] in
theorem Access.isLookup_of_written {call : Access κ υ} {entry : Entry υ}
    (h : call.written? = some entry) : call.isLookup = false := by
  cases call with
  | get key => cases h
  | put key value | delete key => rfl

omit [DecidableEq κ] in
/-- What comes of a write that a source takes does not depend on the source. -/
theorem Source.ask_of_written {source : Source σ κ υ} {call : Access κ υ} {entry answer : Entry υ}
    {s s' : σ} (h : call.written? = some entry) (hAsk : source.ask call s = (.ok answer, s')) :
    answer = entry := by
  cases call with
  | get key => cases h
  | put key value =>
      rcases hPut : source.put key value s with ⟨_ | _, t⟩ <;>
        simp_all [ask, Access.written?, Except.map]
  | delete key =>
      rcases hDelete : source.delete key s with ⟨_ | _, t⟩ <;>
        simp_all [ask, Access.written?, Except.map]

namespace Stack

variable {source : Source σ κ υ} {stack : Stack κ υ} {s : σ} {key : κ}

/-- The calls that an event on a stack makes on the source, as they are noted in
the source's place. -/
def requests (source : Source σ κ υ) (event : Event κ υ) (stack : Stack κ υ) (s : σ) :
    List (Request κ υ) :=
  (step source.noted event (stack, { inner := s })).2.2.requests

theorem requests_eq (source : Source σ κ υ) (event : Event κ υ) (stack : Stack κ υ) (s : σ) :
    requests source event stack s = (event.request? stack).toList := by
  rw [requests, step_noted]
  rfl

theorem requests_of_reaches {call : Access κ υ} (h : call.Reaches stack) (s : σ) :
    requests source (.access call) stack s = [.access call] := by
  have hAll : stack.all (fun cache => (call.heldBy cache).isNone) = true := by
    rw [List.all_eq_true]
    exact fun cache hCache => Option.isNone_iff_eq_none.2 (h cache hCache)
  rw [requests_eq, Event.request?, if_pos hAll]
  rfl

theorem step_access_eq (source : Source σ κ υ) (call : Access κ υ) (stack : Stack κ υ) (s : σ) :
    step source (.access call) (stack, s) =
      let reached := source.stacked.ask call (stack, s)
      (call.reply reached.1, reached.2) :=
  source.stacked.access_eq_ask call (stack, s)

theorem map_remember_of_lookup (h : ∀ cache ∈ stack, cache.peek key = none) (entry : Entry υ) :
    stack.map (fun cache => ((Access.get key).pass cache).remember key entry) =
      stack.map (ReadCache.afterMiss key entry) :=
  List.map_congr_left fun cache hCache => ReadCache.remember_of_lookup (h cache hCache) entry

/-- A lookup goes no further down than to a layer that holds its key. -/
theorem get_of_held {above below : Stack κ υ} {holder : ReadCache κ υ} {entry : Entry υ}
    (hAbove : ∀ cache ∈ above, cache.peek key = none) (hHolder : holder.peek key = some entry) (s : σ) :
    requests source (.access (.get key)) (above ++ holder :: below) s = [] ∧
      step source (.access (.get key)) (above ++ holder :: below, s) =
        (.got (.ok entry.value?),
          above.map (ReadCache.afterMiss key entry) ++
            { holder with content.hits := holder.hits + 1 } :: below, s) := by
  have hHeld : (Access.get key : Access κ υ).heldBy holder = some entry := hHolder
  constructor
  · rw [requests_eq, Event.request?]
    simp [hHeld]
  · rw [step_access_eq, Source.stacked_ask_of_held hAbove hHeld]
    simp only [Access.key, map_remember_of_lookup hAbove]
    rfl

/-- A lookup that no layer can answer is one lookup of the source. If it
succeeds there, every layer takes the answer in. -/
theorem get_of_missing (h : ∀ cache ∈ stack, cache.peek key = none) (s : σ) :
    requests source (.access (.get key)) stack s = [.access (.get key)] ∧
      ∀ answer s', source.get key s = (.ok answer, s') →
        step source (.access (.get key)) (stack, s) =
          (.got (.ok answer), stack.map (ReadCache.afterMiss key (.ofOption answer)), s') := by
  have hReaches : (Access.get key).Reaches stack := h
  refine ⟨requests_of_reaches hReaches s, ?_⟩
  intro answer s' hGet
  have hAsk : source.ask (.get key) s = (.ok (.ofOption answer), s') := by
    rw [Source.ask, hGet]
    rfl
  rw [step_access_eq, Source.stacked_ask_of_ok hReaches hAsk]
  simp only [Access.key, map_remember_of_lookup h, Access.reply, Except.map, Entry.value?_ofOption]

theorem tookWrite_of_written {call : Access κ υ} {entry : Entry υ} (h : call.written? = some entry)
    (cache : ReadCache κ υ) :
    cache.TookWrite call.key entry ((call.pass cache).remember call.key entry) := by
  obtain ⟨hHits, hMisses⟩ := ReadCache.counts_remember call.key entry (call.pass cache)
  obtain ⟨hHits', hMisses'⟩ := ReadCache.counts_pass call cache
  rw [Access.isLookup_of_written h] at hMisses'
  exact ⟨ReadCache.peek_remember_self .., hHits.trans hHits', hMisses.trans hMisses'⟩

/-- A write that succeeds is that one write at the source, and every layer takes
it. -/
theorem write_of_success {call : Access κ υ} {entry : Entry υ} (h : call.written? = some entry)
    (hDone : (step source (.access call) (stack, s)).1.failed = false) :
    requests source (.access call) stack s = [.access call] ∧
      List.Forall₂ (ReadCache.TookWrite call.key entry) stack
        (step source (.access call) (stack, s)).2.1 := by
  have hReaches : call.Reaches stack := fun cache _ => Access.heldBy_of_written h cache
  refine ⟨requests_of_reaches hReaches s, ?_⟩
  rw [step_access_eq] at hDone ⊢
  rcases hAsk : source.ask call s with ⟨fault | answer, s'⟩
  · rw [Source.stacked_ask_of_fault hReaches hAsk, Reply.failed, Access.fault?_reply_error] at hDone
    cases hDone
  · obtain rfl : answer = entry := Source.ask_of_written h hAsk
    rw [Source.stacked_ask_of_ok hReaches hAsk, List.forall₂_map_right_iff, List.forall₂_same]
    exact fun cache _ => tookWrite_of_written h cache

/-- A call goes through a stack as follows, whatever the layers hold, whatever
their bounds, and whatever the source does. A lookup is answered by the first
layer that holds the key, which counts a hit; the layers above it take the entry
in as after a miss, those below it and the source are not asked. If no layer
holds the key, the source is asked once, and what it answers is taken in by all
layers. A write that succeeds is one write at the source and nothing else, and
every layer then holds what was written. A flush is handed on to the source,
once, if every layer is set to, and is answered with `false` otherwise; it
changes no layer. -/
theorem calls_go_down_to_first_holder (source : Source σ κ υ) (stack : Stack κ υ) (s : σ) :
    (∀ key above holder below entry, stack = above ++ holder :: below →
      (∀ cache ∈ above, cache.peek key = none) → holder.peek key = some entry →
        requests source (.access (.get key)) stack s = [] ∧
        step source (.access (.get key)) (stack, s) =
          (.got (.ok entry.value?),
            above.map (ReadCache.afterMiss key entry) ++
              { holder with content.hits := holder.hits + 1 } :: below, s)) ∧
    (∀ key, (∀ cache ∈ stack, cache.peek key = none) →
      requests source (.access (.get key)) stack s = [.access (.get key)] ∧
      ∀ answer s', source.get key s = (.ok answer, s') →
        step source (.access (.get key)) (stack, s) =
          (.got (.ok answer), stack.map (ReadCache.afterMiss key (.ofOption answer)), s')) ∧
    (∀ call entry, Access.written? call = some entry →
      (step source (.access call) (stack, s)).1.failed = false →
        requests source (.access call) stack s = [.access call] ∧
        List.Forall₂ (ReadCache.TookWrite call.key entry) stack
          (step source (.access call) (stack, s)).2.1) ∧
    ((∀ cache ∈ stack, cache.flushSource = true) →
      requests source (.flush 0) stack s = [.flush] ∧
      step source (.flush 0) (stack, s) = (.flushed (source.flush s).1, stack, (source.flush s).2)) ∧
    ((∃ cache ∈ stack, cache.flushSource = false) →
      requests source (.flush 0) stack s = [] ∧
      step source (.flush 0) (stack, s) = (.flushed (.ok false), stack, s)) := by
  refine ⟨?_, fun key h => get_of_missing h s, fun call entry h => write_of_success h, ?_, ?_⟩
  · rintro key above holder below entry rfl hAbove hHolder
    exact get_of_held hAbove hHolder s
  · intro hForwards
    have hAll : (stack.drop 0).all ReadCache.flushSource = true := List.all_eq_true.2 hForwards
    rw [requests_eq, Event.request?, if_pos hAll, step, flushFrom_eq, if_pos hAll]
    exact ⟨rfl, rfl⟩
  · rintro ⟨cache, hCache, hKeeps⟩
    have hSome : ¬(stack.drop 0).all ReadCache.flushSource = true := by
      intro hAll
      exact Bool.false_ne_true (hKeeps.symm.trans (List.all_eq_true.1 hAll cache hCache))
    rw [requests_eq, Event.request?, if_neg hSome, step, flushFrom_eq, if_neg hSome]
    exact ⟨rfl, rfl⟩

/-- A full layer over an empty one over one whose entry is out of date: it is the
entry that counts, and the full layer drops its other key for it. Writes reach
all layers, and the middle one keeps a flush back. -/
theorem calls_go_down_to_first_holder_stale :
    let source : Source (Counted (Table Nat Nat)) Nat Nat := Table.source.counted
    let bound : Capacity := ⟨1, by decide⟩
    let top : ReadCache Nat Nat :=
      { content := { store := { items := [(2, .absent)], capacity := some bound } }
        maxCapacity := some bound
        flushSource := true }
    let middle : ReadCache Nat Nat := {}
    let bottom : ReadCache Nat Nat :=
      { content := { store := { items := [(1, .present 7)] } }, flushSource := true }
    let stack : Stack Nat Nat := [top, middle, bottom]
    let s : Counted (Table Nat Nat) := { inner := .ofList [(1, 8)] }
    (∀ cache ∈ [top, middle], cache.peek 1 = none) ∧ bottom.peek 1 = some (.present 7) ∧
      requests source (.access (.get 1)) stack s = [] ∧
      step source (.access (.get 1)) (stack, s) =
        (.got (.ok (some 7)),
          [{ top with
              content.store := { items := [(1, .present 7)], capacity := some bound }
              content.misses := 1
              content.evictions := 1 },
            { middle with content.store := { items := [(1, .present 7)] }, content.misses := 1 },
            { bottom with content.hits := 1 }], s) ∧
      requests source (.access (.put 1 9)) stack s = [.access (.put 1 9)] ∧
      requests source (.flush 0) stack s = [] := by
  intro source bound top middle bottom stack s
  have hAbove : ∀ cache ∈ [top, middle], cache.peek 1 = none := by
    simp only [List.forall_mem_cons]
    exact ⟨rfl, rfl, List.forall_mem_nil _⟩
  obtain ⟨hHeld, -, hWrite, -, hFlush⟩ := calls_go_down_to_first_holder source stack s
  obtain ⟨hNone, hStep⟩ := hHeld 1 [top, middle] bottom [] (.present 7) rfl hAbove rfl
  exact ⟨hAbove, rfl, hNone, hStep, (hWrite (.put 1 9) (.present 9) rfl rfl).1,
    (hFlush ⟨middle, by simp [stack], rfl⟩).1⟩

end Stack

end NodeStore
