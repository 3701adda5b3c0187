import NodeStore.Proofs.Cache.Balance

/-!
What values have no part in. A cache admits keys, drives them out, counts and
calls its source without looking at a value, or at whether there is one. Main
statement: two runs with the same calls about the same keys show the same of
their caches, whatever their sources hold and whatever is written, as long as
the sources serve the same calls.
-/

namespace NodeStore

variable {κ υ υ' σ σ' : Type}

/-- A call without the value in it. -/
def Access.form : Access κ υ → Access κ Unit
  | .get key => .get key
  | .put key _ => .put key ()
  | .delete key => .delete key

def Request.form : Request κ υ → Request κ Unit
  | .access call => .access call.form
  | .flush => .flush

/-- Whether the source answers a call without a fault. -/
def Request.served (source : Source σ κ υ) : Request κ υ → σ → Bool
  | .access call, s => !(source.access call s).1.failed
  | .flush, s => (source.flush s).1.isOk

theorem Access.key_eq_of_form {call : Access κ υ} {call' : Access κ υ'}
    (h : call.form = call'.form) : call.key = call'.key ∧ call.isLookup = call'.isLookup := by
  cases call <;> cases call' <;> cases h <;> exact ⟨rfl, rfl⟩

theorem Request.isLookup_form (request : Request κ υ) : request.form.isLookup = request.isLookup := by
  cases request with
  | access call => cases call <;> rfl
  | flush => rfl

namespace ReadCache

/-- An event at the cache itself, without the value in it. What happens past the
cache has no form. -/
def Event.form? : Event σ κ υ → Option (Event Unit κ Unit)
  | .access call => some (.access call.form)
  | .flush => some .flush
  | .upkeep work => some (.upkeep work)
  | .outside _ => none

/-- Two events of one form differ at most in the value of a write. -/
theorem Event.cases_of_form {event : Event σ κ υ} {event' : Event σ' κ υ'} {form : Event Unit κ Unit}
    (h : event.form? = some form) (h' : event'.form? = some form) :
    (∃ call call', event = .access call ∧ event' = .access call' ∧ call.form = call'.form) ∨
      (event = .flush ∧ event' = .flush) ∨ ∃ work, event = .upkeep work ∧ event' = .upkeep work := by
  cases event with
  | access call =>
      cases h
      cases event' with
      | access call' =>
          obtain hForm : call'.form = call.form := Event.access.inj (Option.some.inj h')
          exact .inl ⟨call, call', rfl, rfl, hForm.symm⟩
      | flush | upkeep | outside => cases h'
  | flush =>
      cases h
      cases event' with
      | flush => exact .inr (.inl ⟨rfl, rfl⟩)
      | access | upkeep | outside => cases h'
  | upkeep work =>
      cases h
      cases event' with
      | upkeep work' =>
          obtain rfl : work' = work := Event.upkeep.inj (Option.some.inj h')
          exact .inr (.inr ⟨work', rfl, rfl⟩)
      | access | flush | outside => cases h'
  | outside change => cases h

/-- What an event looks up, bounds and forgets is told by its form. -/
theorem Event.told_by_form {event : Event σ κ υ} {form : Event Unit κ Unit}
    (h : event.form? = some form) :
    event.isLookup = form.isLookup ∧ event.bound? = form.bound? := by
  cases event with
  | access call =>
      cases h
      cases call <;> exact ⟨rfl, rfl⟩
  | flush =>
      cases h
      exact ⟨rfl, rfl⟩
  | upkeep work =>
      cases h
      cases work <;> exact ⟨rfl, rfl⟩
  | outside change => cases h

theorem Event.eq_flush_of_form {event : Event σ κ υ} (h : event.form? = some .flush) :
    event = .flush := by
  cases event with
  | flush => rfl
  | access | upkeep | outside => cases h

/-- What an event shows of a cache to someone who sees no value, and no
difference between a value and its absence. -/
structure View (κ : Type) where
  /-- The keys held after the event, in the order of their admission. -/
  keys : List κ
  size : Nat
  stats : Stats
  maxCapacity : Option Capacity
  /-- The keys that the bound drives out at the event. -/
  evicted : List κ
  /-- The call that the event makes on the source. -/
  request : Option (Request κ Unit)

variable [DecidableEq κ]

theorem Event.survivors_of_form {event : Event σ κ υ} {form : Event Unit κ Unit}
    (h : event.form? = some form) (keys : List κ) : event.survivors keys = form.survivors keys := by
  cases event with
  | access | flush =>
      cases h
      rfl
  | upkeep work =>
      cases h
      cases work <;> rfl
  | outside change => cases h

/-- Whether the source serves the call that an event makes on it, if any. -/
def verdict? (source : Source σ κ υ) (event : Event σ κ υ) (state : ReadCache κ υ × σ) : Option Bool :=
  (event.request? state.1).map fun request => request.served source state.2

/-- Of the calls that a run makes on the source, in their order, which are served. -/
def verdicts (source : Source σ κ υ) : List (Event σ κ υ) → ReadCache κ υ × σ → List Bool :=
  Run.collect (step source) (verdict? source)

def view (source : Source σ κ υ) (event : Event σ κ υ) (state : ReadCache κ υ × σ) : View κ :=
  let after := (step source event state).2.1
  { keys := after.store.keys
    size := after.size
    stats := after.stats
    maxCapacity := after.maxCapacity
    evicted := state.1.store.keys.take (evicted source event state)
    request := (event.request? state.1).map Request.form }

/-- What a run shows, from event to event at the cache. -/
def views (source : Source σ κ υ) : List (Event σ κ υ) → ReadCache κ υ × σ → List (View κ) :=
  Run.collect (step source) fun event state => event.form?.map fun _ => view source event state

section Verdict

variable {source : Source σ κ υ} {event : Event σ κ υ} {call : Access κ υ} {cache : ReadCache κ υ}
  {s : σ}

theorem isSome_heldBy_iff :
    (call.heldBy cache).isSome = true ↔ call.isLookup = true ∧ call.key ∈ cache.store.keys := by
  cases call with
  | get key =>
      rw [Access.heldBy, isSome_peek_iff]
      simp [Access.isLookup, Access.key]
  | put key value | delete key => simp [Access.heldBy, Access.isLookup]

/-- A call that is passed on fails if and only if the source fails it. -/
theorem failed_step_of_missing (h : call.heldBy cache = none) :
    (step source (.access call) (cache, s)).1.failed = (source.access call s).1.failed := by
  rw [step, Source.access_eq_ask, Source.access_eq_ask]
  rcases hAsk : source.ask call s with ⟨fault | entry, s'⟩
  · rw [Source.cached_ask_of_fault h hAsk]
  · rw [Source.cached_ask_of_ok h hAsk]

/-- Whether a call admits its key shows in the keys held and in whether the source
serves the call. -/
theorem admitted_eq (source : Source σ κ υ) (call : Access κ υ) (cache : ReadCache κ υ) (s : σ) :
    admitted source (.access call) (cache, s) =
      if call.key ∉ cache.store.keys ∧ verdict? source (.access call) (cache, s) = some true then
        some call.key
      else none := by
  by_cases hMem : call.key ∈ cache.store.keys
  · have hPeek := isSome_peek_iff.2 hMem
    rw [if_neg (fun h => h.1 hMem), admitted, ← Option.not_isSome, hPeek]
    rfl
  · have hPeek : cache.peek call.key = none :=
      Option.not_isSome_iff_eq_none.1 (mt isSome_peek_iff.1 hMem)
    have hHeld : call.heldBy cache = none :=
      Option.not_isSome_iff_eq_none.1 fun h => hMem (isSome_heldBy_iff.1 h).2
    simp [admitted, hPeek, failed_step_of_missing hHeld, hMem, verdict?, Event.request?, request?,
      hHeld, Request.served]

theorem flushSource_remember (key : κ) (entry : Entry υ) (cache : ReadCache κ υ) :
    (cache.remember key entry).flushSource = cache.flushSource := by
  cases hPeek : cache.peek key with
  | none => rw [remember_of_missing hPeek, add_of_missing hPeek]
  | some former => rw [remember_of_held hPeek]

theorem flushSource_step (source : Source σ κ υ) (event : Event σ κ υ) (cache : ReadCache κ υ) (s : σ) :
    (step source event (cache, s)).2.1.flushSource = cache.flushSource := by
  cases event with
  | flush => rw [step_flush]
  | outside change => rfl
  | upkeep work =>
      rw [step, perform_eq]
      cases work <;> rfl
  | access call =>
      have hPass : (call.pass cache).flushSource = cache.flushSource := by cases call <;> rfl
      rcases source.cached_access_cases call cache s with
        ⟨entry, -, -, hAfter⟩ | ⟨entry, -, hAfter⟩ | ⟨fault, -, hAfter⟩
      · exact (congrArg flushSource hAfter).trans rfl
      · exact (congrArg flushSource hAfter).trans ((flushSource_remember ..).trans hPass)
      · apply (congrArg flushSource hAfter).trans
        cases fault <;> exact hPass

end Verdict

/-- Two caches that differ at most in what they remember under their keys, in
whether they hand a flush on, and in whether their locks are poisoned. -/
structure Alike (cache : ReadCache κ υ) (cache' : ReadCache κ υ') : Prop where
  agree : BoundsAgree cache
  agree' : BoundsAgree cache'
  keys_eq : cache.store.keys = cache'.store.keys
  maxCapacity_eq : cache.maxCapacity = cache'.maxCapacity
  hits_eq : cache.hits = cache'.hits
  misses_eq : cache.misses = cache'.misses
  evictions_eq : cache.evictions = cache'.evictions

omit [DecidableEq κ] in
theorem flushSource_fresh (capacity : Option Capacity) (flushSource : Bool) :
    (fresh capacity flushSource : ReadCache κ υ).flushSource = flushSource := by
  cases capacity <;> rfl

omit [DecidableEq κ] in
theorem alike_fresh (capacity : Option Capacity) (flushSource flushSource' : Bool) :
    Alike (fresh capacity flushSource : ReadCache κ υ) (fresh capacity flushSource' : ReadCache κ υ') := by
  obtain ⟨hHits, hMisses, hEvictions⟩ := counts_fresh (κ := κ) (υ := υ) capacity flushSource
  obtain ⟨hHits', hMisses', hEvictions'⟩ := counts_fresh (κ := κ) (υ := υ') capacity flushSource'
  refine ⟨.fresh .., .fresh .., ?_, ?_, hHits.trans hHits'.symm, hMisses.trans hMisses'.symm,
    hEvictions.trans hEvictions'.symm⟩
  · simp [Store.keys]
  · cases capacity <;> rfl

namespace Alike

variable {source : Source σ κ υ} {source' : Source σ' κ υ'} {event : Event σ κ υ}
  {event' : Event σ' κ υ'} {form : Event Unit κ Unit} {cache : ReadCache κ υ}
  {cache' : ReadCache κ υ'} {s : σ} {s' : σ'}

omit [DecidableEq κ] in
theorem size_eq (h : Alike cache cache') : cache.size = cache'.size := by
  rw [← length_keys, ← length_keys, h.keys_eq]

omit [DecidableEq κ] in
theorem stats_eq (h : Alike cache cache') : cache.stats = cache'.stats := by
  rw [ReadCache.stats_eq, ReadCache.stats_eq, ← ReadCache.size_eq, ← ReadCache.size_eq, h.hits_eq,
    h.misses_eq, h.size_eq, h.evictions_eq]

/-- Alike caches pass on the same calls. -/
theorem request?_eq (h : Alike cache cache') (hForm : event.form? = some form)
    (hForm' : event'.form? = some form)
    (hFlush : form = .flush → cache.flushSource = cache'.flushSource) :
    (event.request? cache).map Request.form = (event'.request? cache').map Request.form := by
  rcases Event.cases_of_form hForm hForm' with
    ⟨call, call', rfl, rfl, hCall⟩ | ⟨rfl, rfl⟩ | ⟨work, rfl, rfl⟩
  · obtain ⟨hKey, hLookup⟩ := Access.key_eq_of_form hCall
    have hHeld : (call.heldBy cache).isSome = (call'.heldBy cache').isSome := by
      rw [Bool.eq_iff_iff, isSome_heldBy_iff, isSome_heldBy_iff, hKey, hLookup, h.keys_eq]
    simp only [Event.request?, request?]
    cases hOwn : call.heldBy cache <;> cases hOther : call'.heldBy cache' <;>
      simp_all [Request.form]
  · have hHandsOn := hFlush (Option.some.inj hForm).symm
    simp only [Event.request?, hHandsOn]
    split <;> rfl
  · rfl

/-- It takes a call that both make for the verdicts on it to differ. -/
theorem verdict?_eq (h : Alike cache cache') (hForm : event.form? = some form)
    (hForm' : event'.form? = some form)
    (hFlush : form = .flush → cache.flushSource = cache'.flushSource)
    (hSame : ∀ verdict verdict', verdict? source event (cache, s) = some verdict →
      verdict? source' event' (cache', s') = some verdict' → verdict = verdict') :
    verdict? source event (cache, s) = verdict? source' event' (cache', s') := by
  have hRequest := h.request?_eq hForm hForm' hFlush
  simp only [verdict?] at hSame ⊢
  cases hOwn : event.request? cache <;> cases hOther : event'.request? cache' <;>
    simp_all

/-- Served alike, alike caches admit the same key. -/
theorem admitted_eq (h : Alike cache cache') (hForm : event.form? = some form)
    (hForm' : event'.form? = some form)
    (hVerdict : verdict? source event (cache, s) = verdict? source' event' (cache', s')) :
    admitted source event (cache, s) = admitted source' event' (cache', s') := by
  rcases Event.cases_of_form hForm hForm' with
    ⟨call, call', rfl, rfl, hCall⟩ | ⟨rfl, rfl⟩ | ⟨work, rfl, rfl⟩
  · rw [ReadCache.admitted_eq, ReadCache.admitted_eq, hVerdict, h.keys_eq,
      (Access.key_eq_of_form hCall).1]
  · rfl
  · rfl

theorem evicted_eq (h : Alike cache cache') (hForm : event.form? = some form)
    (hForm' : event'.form? = some form)
    (hVerdict : verdict? source event (cache, s) = verdict? source' event' (cache', s')) :
    evicted source event (cache, s) = evicted source' event' (cache', s') := by
  have hAdmitted := h.admitted_eq hForm hForm' hVerdict
  rcases Event.cases_of_form hForm hForm' with
    ⟨call, call', rfl, rfl, hCall⟩ | ⟨rfl, rfl⟩ | ⟨work, rfl, rfl⟩
  · rw [evicted_of_not_bound rfl, evicted_of_not_bound rfl, hAdmitted, h.maxCapacity_eq, h.size_eq]
  · rw [evicted_of_not_bound rfl, evicted_of_not_bound rfl, hAdmitted, h.maxCapacity_eq, h.size_eq]
  · cases work with
    | bound capacity => simp only [evicted, h.size_eq]
    | peek | size | stats | invalidate | clear => rfl

/-- Served alike, alike caches stay alike. -/
theorem step (h : Alike cache cache') (hForm : event.form? = some form)
    (hForm' : event'.form? = some form)
    (hFlush : form = .flush → cache.flushSource = cache'.flushSource)
    (hVerdict : verdict? source event (cache, s) = verdict? source' event' (cache', s')) :
    Alike (ReadCache.step source event (cache, s)).2.1
      (ReadCache.step source' event' (cache', s')).2.1 := by
  have hAdmitted := h.admitted_eq hForm hForm' hVerdict
  have hEvicted := h.evicted_eq hForm hForm' hVerdict
  obtain ⟨hKeys, hEvictions⟩ := keys_step h.agree source event s
  obtain ⟨hKeys', hEvictions'⟩ := keys_step h.agree' source' event' s'
  obtain ⟨hHits, hMisses⟩ := counts_step source event cache s
  obtain ⟨hHits', hMisses'⟩ := counts_step source' event' cache' s'
  have hPassed : (event.request? cache).toList.countP Request.isLookup =
      (event'.request? cache').toList.countP Request.isLookup := by
    have hRequest := congrArg (Option.map Request.isLookup) (h.request?_eq hForm hForm' hFlush)
    simp only [Option.map_map, Function.comp_def, Request.isLookup_form] at hRequest
    cases hOwn : event.request? cache <;> cases hOther : event'.request? cache' <;>
      simp_all
  obtain ⟨hLookup, hBound⟩ := Event.told_by_form hForm
  obtain ⟨hLookup', hBound'⟩ := Event.told_by_form hForm'
  rw [hPassed, hLookup, ← hLookup'] at hHits
  refine ⟨h.agree.step .., h.agree'.step .., ?_, ?_, ?_, ?_, ?_⟩
  · rw [hKeys, hKeys', Event.survivors_of_form hForm, Event.survivors_of_form hForm', hAdmitted,
      hEvicted, h.keys_eq]
  · rw [maxCapacity_step, maxCapacity_step, hBound, hBound', h.maxCapacity_eq]
  · have hOld := h.hits_eq
    omega
  · rw [hMisses, hMisses', hPassed, h.misses_eq]
  · rw [hEvictions, hEvictions', h.evictions_eq, hEvicted]

theorem view_eq (h : Alike cache cache') (hForm : event.form? = some form)
    (hForm' : event'.form? = some form)
    (hFlush : form = .flush → cache.flushSource = cache'.flushSource)
    (hVerdict : verdict? source event (cache, s) = verdict? source' event' (cache', s')) :
    view source event (cache, s) = view source' event' (cache', s') := by
  have hAfter := h.step hForm hForm' hFlush hVerdict
  simp only [view, hAfter.keys_eq, hAfter.size_eq, hAfter.stats_eq, hAfter.maxCapacity_eq, h.keys_eq,
    h.evicted_eq hForm hForm' hVerdict, h.request?_eq hForm hForm' hFlush]

end Alike

/-- Lists that agree as far as both of them go. -/
def Concur {α : Type} (xs ys : List α) : Prop :=
  ∀ (i : Nat) (x y : α), xs[i]? = some x → ys[i]? = some y → x = y

theorem Concur.of_heads {α : Type} {head head' : Option α} {xs ys : List α}
    (h : Concur (head.toList ++ xs) (head'.toList ++ ys)) :
    ∀ x y, head = some x → head' = some y → x = y := by
  rintro x y rfl rfl
  exact h 0 x y rfl rfl

theorem Concur.of_append {α : Type} {front xs ys : List α} (h : Concur (front ++ xs) (front ++ ys)) :
    Concur xs ys := by
  intro i x y hX hY
  apply h (front.length + i) x y
  · rwa [List.getElem?_append_right (Nat.le_add_right ..), Nat.add_sub_cancel_left]
  · rwa [List.getElem?_append_right (Nat.le_add_right ..), Nat.add_sub_cancel_left]

/-- What happens past a cache does not show; later events only meet another state
of the source. -/
theorem run_silent_append (source : Source σ κ υ) {silent : List (Event σ κ υ)}
    (h : ∀ event ∈ silent, event.form? = none) (later : List (Event σ κ υ)) (cache : ReadCache κ υ)
    (s : σ) :
    ∃ t, views source (silent ++ later) (cache, s) = views source later (cache, t) ∧
      verdicts source (silent ++ later) (cache, s) = verdicts source later (cache, t) := by
  induction silent generalizing s with
  | nil => exact ⟨s, rfl, rfl⟩
  | cons event silent ih =>
      obtain ⟨hEvent, hSilent⟩ := List.forall_mem_cons.1 h
      cases event with
      | access | flush | upkeep => cases hEvent
      | outside change => exact ih hSilent (change s)

/-- Alike caches that are served alike show the same along their runs, whatever
happens past each of them in between. -/
theorem Alike.views_eq (source : Source σ κ υ) (source' : Source σ' κ υ') (events : List (Event σ κ υ))
    (events' : List (Event σ' κ υ')) {cache : ReadCache κ υ} {cache' : ReadCache κ υ'} {s : σ} {s' : σ'}
    (h : Alike cache cache') (hFlush : .flush ∈ events → cache.flushSource = cache'.flushSource)
    (hForms : events.filterMap Event.form? = events'.filterMap Event.form?)
    (hVerdicts : Concur (verdicts source events (cache, s)) (verdicts source' events' (cache', s'))) :
    views source events (cache, s) = views source' events' (cache', s') := by
  induction events generalizing events' cache cache' s s' with
  | nil =>
      have hSilent := List.filterMap_eq_nil_iff.1 hForms.symm
      obtain ⟨t, hViews, -⟩ := run_silent_append source' hSilent [] cache' s'
      rw [List.append_nil] at hViews
      exact hViews.symm
  | cons event events ih =>
      have hLater := fun hMem => hFlush (List.mem_cons_of_mem event hMem)
      cases hForm : event.form? with
      | none =>
          cases event with
          | access | flush | upkeep => cases hForm
          | outside change => exact ih events' h hLater hForms hVerdicts
      | some form =>
          rw [List.filterMap_cons_some hForm] at hForms
          obtain ⟨silent, event', later, rfl, hSilent, hForm', hForms'⟩ :=
            List.filterMap_eq_cons_iff.1 hForms.symm
          obtain ⟨t, hViews, hRest⟩ := run_silent_append source' hSilent (event' :: later) cache' s'
          have hHandsOn : form = .flush → cache.flushSource = cache'.flushSource := by
            rintro rfl
            exact hFlush (List.mem_cons.2 (.inl (Event.eq_flush_of_form hForm).symm))
          rw [hRest] at hVerdicts
          simp only [verdicts, views, Run.collect] at hVerdicts hViews ⊢
          have hVerdict := h.verdict?_eq hForm hForm' hHandsOn hVerdicts.of_heads
          rw [hVerdict] at hVerdicts
          have hAfter := h.step hForm hForm' hHandsOn hVerdict
          rw [hViews, hForm, hForm', Option.map_some, Option.map_some,
            h.view_eq hForm hForm' hHandsOn hVerdict]
          refine congrArg _ (ih later hAfter (fun hMem => ?_) hForms'.symm hVerdicts.of_append)
          rw [flushSource_step, flushSource_step]
          exact hLater hMem

/-- The calls on the source show in the views of a run. -/
theorem requests_eq_of_views (source : Source σ κ υ) (events : List (Event σ κ υ))
    (state : ReadCache κ υ × σ) :
    (requests source events state).map Request.form =
      (views source events state).filterMap View.request := by
  rw [requests, views, Run.filterMap_collect, ← List.filterMap_eq_map, Run.filterMap_collect]
  congr 1
  funext event state
  cases event with
  | outside change => rfl
  | access | flush | upkeep => exact Option.map_eq_bind.symm

/-- What a cache holds, in which order, how long, and what it asks of its source
does not depend on values. Take two runs with the same bound and the same events
at the cache, up to the values written, over sources of any content, changed at
any moments by anything; and let the calls on the two sources be served alike as
far as both runs make them. Then after each event both caches hold the same keys
in the same order, under the same figures, the same keys have been driven out,
and the sources have seen the same calls. Whether a flush is handed on matters
only to a run with a flush. -/
theorem views_ignore_values (source : Source σ κ υ) (source' : Source σ' κ υ')
    (capacity : Option Capacity) (flushSource flushSource' : Bool) (s : σ) (s' : σ')
    (events : List (Event σ κ υ)) (events' : List (Event σ' κ υ'))
    (hFlush : .flush ∈ events → flushSource = flushSource')
    (hForms : events.filterMap Event.form? = events'.filterMap Event.form?)
    (hVerdicts : Concur (verdicts source events (fresh capacity flushSource, s))
      (verdicts source' events' (fresh capacity flushSource', s'))) :
    let noted := Run.final (step source.noted) (events.map Event.noted)
      (fresh capacity flushSource, { inner := s })
    let noted' := Run.final (step source'.noted) (events'.map Event.noted)
      (fresh capacity flushSource', { inner := s' })
    views source events (fresh capacity flushSource, s) =
        views source' events' (fresh capacity flushSource', s') ∧
      noted.2.requests.map Request.form = noted'.2.requests.map Request.form := by
  intro noted noted'
  have hHandsOn : .flush ∈ events →
      (fresh capacity flushSource : ReadCache κ υ).flushSource =
        (fresh capacity flushSource' : ReadCache κ υ').flushSource := by
    intro hMem
    rw [flushSource_fresh, flushSource_fresh, hFlush hMem]
  have hViews := (alike_fresh capacity flushSource flushSource').views_eq source source' events events'
    hHandsOn hForms hVerdicts
  have hNoted : noted = _ := final_noted source events (fresh capacity flushSource) { inner := s }
  have hNoted' : noted' = _ :=
    final_noted source' events' (fresh capacity flushSource') { inner := s' }
  refine ⟨hViews, ?_⟩
  rw [hNoted, hNoted']
  simp only [Noted.note, List.nil_append]
  rw [requests_eq_of_views, requests_eq_of_views, hViews]

/-- Numbers over a table with one entry, and truth values over an empty table
that is filled past the cache: in both runs the failed write of key 3 drives
nothing out, the second one drives out key 1, and the lookup of key 1 then drives
out key 2. -/
theorem views_ignore_values_mixed :
    let source : Source (Switched (Table Nat Nat)) Nat Nat := Table.source.failing
    let source' : Source (Switched (Table Nat Bool)) Nat Bool := Table.source.failing
    let bound : Option Capacity := some ⟨2, by decide⟩
    let s : Switched (Table Nat Nat) := { inner := .ofList [(1, 10)] }
    let s' : Switched (Table Nat Bool) := { inner := .empty }
    let events : List (Event (Switched (Table Nat Nat)) Nat Nat) :=
      [.access (.get 1), .access (.get 2), .outside fun s => { s with faulty := true },
        .access (.put 3 30), .outside fun s => { s with faulty := false }, .access (.put 3 31),
        .access (.get 1)]
    let events' : List (Event (Switched (Table Nat Bool)) Nat Bool) :=
      [.access (.get 1), .outside fun s => { s with inner := s.inner.insert 2 true },
        .access (.get 2), .outside fun s => { s with faulty := true }, .access (.put 3 false),
        .outside fun s => { s with inner := .empty, faulty := false }, .access (.put 3 true),
        .access (.get 1)]
    .flush ∉ events ∧ events.filterMap Event.form? = events'.filterMap Event.form? ∧
      Concur (verdicts source events (fresh bound false, s))
        (verdicts source' events' (fresh bound true, s')) ∧
      views source events (fresh bound false, s) = views source' events' (fresh bound true, s') ∧
      (views source' events' (fresh bound true, s')).map View.evicted = [[], [], [], [1], [2]] := by
  intro source source' bound s s' events events'
  have hNoFlush : .flush ∉ events := by simp [events]
  have hForms : events.filterMap Event.form? = events'.filterMap Event.form? := rfl
  have hVerdicts : verdicts source events (fresh bound false, s) =
      verdicts source' events' (fresh bound true, s') := by cbv
  have hConcur : Concur (verdicts source events (fresh bound false, s))
      (verdicts source' events' (fresh bound true, s')) := by
    intro i x y hX hY
    rw [hVerdicts, hY] at hX
    exact (Option.some.inj hX).symm
  obtain ⟨hViews, -⟩ := views_ignore_values source source' bound false true s s' events events'
    (fun hFlush => absurd hFlush hNoFlush) hForms hConcur
  exact ⟨hNoFlush, hForms, hConcur, hViews, by cbv⟩

end ReadCache

end NodeStore
