import NodeStore.Proofs.Cache.Effect
import NodeStore.Source.Switched
import NodeStore.Source.Table

/-!
Calls that fail, or crash, on the way through a stack of caches. Such a call
hands on the source's own fault and leaves nothing behind but a count of misses
and a poisoned lock, and neither is ever consulted: a run with its failed calls
and the run without them cannot be told apart by anything else.
-/

namespace NodeStore

variable {κ υ σ δ γ : Type}

theorem Reply.error_of_failed_flushed {outcome : Outcome Bool}
    (h : (flushed outcome : Reply υ).failed = true) : ∃ fault, outcome = .error fault := by
  cases outcome with
  | ok pushed => cases h
  | error fault => exact ⟨fault, rfl⟩

/-- A source whose failing calls change nothing. `content` is what its answers
depend on, and `act` what else may be done to it, such as making it fail. -/
structure Source.FailsCleanly (source : Source σ κ υ) (act : δ → σ → σ) (content : σ → γ) :
    Prop where
  access_congr : ∀ call s t, content s = content t →
    (source.access call s).1 = (source.access call t).1 ∧
      content (source.access call s).2 = content (source.access call t).2
  flush_congr : ∀ s t, content s = content t →
    (source.flush s).1 = (source.flush t).1 ∧
      content (source.flush s).2 = content (source.flush t).2
  act_congr : ∀ action s t, content s = content t → content (act action s) = content (act action t)
  access_fault : ∀ call s, (source.access call s).1.failed = true →
    content (source.access call s).2 = content s
  flush_fault : ∀ s fault, (source.flush s).1 = .error fault → content (source.flush s).2 = content s

/-- A source that never fails by itself fails cleanly when it is switched to:
a call that is made to fail or to crash does so before it does anything. -/
theorem Source.failsCleanly_switched {source : Source σ κ υ} (fault : String → Fault)
    (act : δ → Switched σ → Switched σ) (hAccess : ∀ call s, (source.access call s).1.failed = false)
    (hFlush : ∀ s fault, (source.flush s).1 ≠ .error fault) :
    (source.switched fault).FailsCleanly act id where
  access_congr call s t h := by rw [show s = t from h]; exact ⟨rfl, rfl⟩
  flush_congr s t h := by rw [show s = t from h]; exact ⟨rfl, rfl⟩
  act_congr action s t h := by rw [show s = t from h]
  access_fault call s hFailed := by
    rcases s with ⟨inner, _ | _⟩
    · have hInner := hAccess call inner
      cases call <;> exact absurd (hFailed.symm.trans hInner) (by decide)
    · cases call <;> rfl
  flush_fault s raised hRaised := by
    rcases s with ⟨inner, _ | _⟩
    · exact absurd hRaised (hFlush inner raised)
    · rfl

theorem Table.failsCleanly_switched [DecidableEq κ] (fault : String → Fault)
    (act : δ → Switched (Table κ υ) → Switched (Table κ υ)) :
    ((Table.source : Source (Table κ υ) κ υ).switched fault).FailsCleanly act id :=
  Source.failsCleanly_switched fault act (fun call _ => by cases call <;> rfl) fun _ _ => nofun

/-- Whether a call was abandoned rather than answered with an error. -/
def Fault.isCrash : Fault → Bool
  | .failure _ => false
  | .crash _ => true

/-- Whether a call asks for a value, rather than changing one. -/
def Access.isLookup : Access κ υ → Bool
  | .get _ => true
  | .put _ _ => false
  | .delete _ => false

/-- The cache without what a failed lookup may leave in it: its miss, and the
poisoned lock. -/
def ReadCache.unmarked (cache : ReadCache κ υ) : ReadCache κ υ :=
  { cache with content.misses := 0, poisoned := false }

/-- All layers without the marks of failed lookups. -/
def Stack.unmarked (stack : Stack κ υ) : Stack κ υ := stack.map ReadCache.unmarked

/-- The answer without the number of misses, if it gives one. -/
def Reply.unmarked : Reply υ → Reply υ
  | .stats figures => .stats { figures with misses := 0 }
  | reply => reply

variable [DecidableEq κ]

namespace ReadCache

theorem unmarked_add (key : κ) (entry : Entry υ) (cache : ReadCache κ υ) :
    (cache.add key entry).unmarked = cache.unmarked.add key entry := by
  rcases hPush : cache.store.push key entry with ⟨store, _ | evicted⟩
  · simp [add, unmarked, hPush]
  · simp [add, unmarked, hPush]

theorem peek_unmarked (key : κ) (cache : ReadCache κ υ) :
    cache.unmarked.peek key = cache.peek key :=
  peek_congr rfl

/-- The marks have no part in what is remembered. -/
theorem unmarked_remember (key : κ) (entry : Entry υ) (cache : ReadCache κ υ) :
    (cache.remember key entry).unmarked = cache.unmarked.remember key entry := by
  cases hPeek : cache.peek key with
  | none =>
      have hUnmarked : cache.unmarked.peek key = none := by rw [peek_unmarked, hPeek]
      rw [remember_of_missing hPeek, remember_of_missing hUnmarked, unmarked_add]
  | some former =>
      have hUnmarked : cache.unmarked.peek key = some former := by rw [peek_unmarked, hPeek]
      rw [remember_of_held hPeek, remember_of_held hUnmarked]
      rfl

theorem perform_unmarked (work : Upkeep κ) (cache : ReadCache κ υ) :
    (cache.perform work).1.unmarked = (cache.unmarked.perform work).1.unmarked ∧
      (cache.perform work).2.unmarked = (cache.unmarked.perform work).2.unmarked := by
  rw [perform_eq, perform_eq]
  cases work <;> exact ⟨rfl, rfl⟩

theorem failed_perform (work : Upkeep κ) (cache : ReadCache κ υ) :
    (cache.perform work).1.failed = false := by
  cases work <;> rfl

end ReadCache

namespace Access

/-- Whether a call gets past all layers, down to the source. -/
def Reaches (stack : Stack κ υ) (call : Access κ υ) : Prop :=
  ∀ cache ∈ stack, call.heldBy cache = none

/-- What a call that the source fails makes of each layer it came through: a
lookup has counted as a miss, and a crash has poisoned the lock. -/
def abandon (fault : Fault) (call : Access κ υ) (cache : ReadCache κ υ) : ReadCache κ υ :=
  { cache with
    content.misses := cache.misses + if call.isLookup then 1 else 0
    poisoned := cache.poisoned || fault.isCrash }

omit [DecidableEq κ] in
theorem abandon_eq (fault : Fault) (call : Access κ υ) (cache : ReadCache κ υ) :
    call.abandon fault cache = (call.pass cache).release fault := by
  cases call <;> cases fault <;>
    simp [abandon, isLookup, pass, ReadCache.countMiss, ReadCache.release, Fault.isCrash]

omit [DecidableEq κ] in
theorem unmarked_pass (call : Access κ υ) (cache : ReadCache κ υ) :
    (call.pass cache).unmarked = cache.unmarked := by
  cases call <;> rfl

omit [DecidableEq κ] in
theorem unmarked_abandon (fault : Fault) (call : Access κ υ) (cache : ReadCache κ υ) :
    (call.abandon fault cache).unmarked = cache.unmarked := rfl

/-- The marks have no part in what a cache answers by itself. -/
theorem heldBy_unmarked (call : Access κ υ) (cache : ReadCache κ υ) :
    call.heldBy cache.unmarked = call.heldBy cache := by
  cases call with
  | get key => exact cache.peek_unmarked key
  | put | delete => rfl

theorem Reaches.unmarked {stack : Stack κ υ} {call : Access κ υ} (h : call.Reaches stack) :
    call.Reaches stack.unmarked := by
  intro cache hCache
  obtain ⟨old, hOld, rfl⟩ := List.mem_map.1 hCache
  rw [heldBy_unmarked]
  exact h old hOld

end Access

namespace Source

variable {source : Source σ κ υ} {call : Access κ υ} {fault : Fault} {s t : σ}

omit [DecidableEq κ] in
/-- Calls that are answered alike came to the same. -/
theorem ask_congr_of_access (h : (source.access call s).1 = (source.access call t).1) :
    (source.ask call s).1 = (source.ask call t).1 := by
  cases call with
  | get key => rw [ask, ask, Reply.got.inj h]
  | put key value => rw [ask, ask, Reply.wrote.inj h]
  | delete key => rw [ask, ask, Reply.wrote.inj h]

omit [DecidableEq κ] in
/-- A call reports a fault if and only if nothing but the fault came of it. -/
theorem fault?_access_eq_some :
    (source.access call s).1.fault? = some fault ↔ (source.ask call s).1 = .error fault := by
  rw [access_eq_ask]
  cases (source.ask call s).1 with
  | ok entry => simp
  | error raised => simp

end Source

namespace Stack

variable {source : Source σ κ υ} {stack : Stack κ υ} {s t : σ}

omit [DecidableEq κ] in
theorem unmarked_map_abandon (fault : Fault) (call : Access κ υ) (stack : Stack κ υ) :
    unmarked (stack.map (call.abandon fault)) = stack.unmarked := by
  rw [unmarked, List.map_map]
  exact List.map_congr_left fun cache _ => call.unmarked_abandon fault cache

theorem unmarked_map_remember (call : Access κ υ) (entry : Entry υ) (stack : Stack κ υ) :
    unmarked (stack.map fun cache => (call.pass cache).remember call.key entry) =
      stack.unmarked.map (ReadCache.remember call.key entry) := by
  rw [unmarked, unmarked, List.map_map, List.map_map]
  apply List.map_congr_left
  intro cache _
  change ((call.pass cache).remember call.key entry).unmarked = _
  rw [ReadCache.unmarked_remember, Access.unmarked_pass]
  rfl

omit [DecidableEq κ] in
theorem unmarked_append_cons (above : Stack κ υ) (holder : ReadCache κ υ) (below : Stack κ υ) :
    unmarked (above ++ holder :: below) = unmarked above ++ holder.unmarked :: unmarked below := by
  rw [unmarked, List.map_append, List.map_cons]
  rfl

omit [DecidableEq κ] in
theorem unmarked_unmarked (stack : Stack κ υ) : unmarked stack.unmarked = stack.unmarked := by
  rw [unmarked, unmarked, List.map_map]
  rfl

theorem stacked_ask_of_fault {call : Access κ υ} {fault : Fault} (hReaches : call.Reaches stack)
    (hAsk : source.ask call s = (.error fault, t)) :
    source.stacked.ask call (stack, s) = (.error fault, stack.map (call.abandon fault), t) := by
  rw [Source.stacked_ask_of_fault hReaches hAsk, funext (call.abandon_eq fault)]

/-- A call that the source fails hands on the source's answer, and each layer
is left as `Access.abandon` says. -/
theorem access_of_fault {call : Access κ υ} {fault : Fault} (hReaches : call.Reaches stack)
    (hFault : (source.access call s).1.fault? = some fault) :
    source.stacked.access call (stack, s) =
      ((source.access call s).1, stack.map (call.abandon fault), (source.access call s).2) := by
  have hAsk : source.ask call s = (.error fault, (source.ask call s).2) :=
    Prod.ext (Source.fault?_access_eq_some.1 hFault) rfl
  rw [Source.access_eq_ask, Source.access_eq_ask, stacked_ask_of_fault hReaches hAsk, hAsk]

/-- Only the source makes a call fail. -/
theorem fault_of_access {call : Access κ υ} {fault : Fault}
    (h : (source.stacked.access call (stack, s)).1.fault? = some fault) :
    call.Reaches stack ∧ (source.access call s).1.fault? = some fault := by
  rw [Source.fault?_access_eq_some] at h ⊢
  rcases missing_or_held call stack with
    hMissing | ⟨above, holder, below, entry, rfl, hAbove, hHolder⟩
  · refine ⟨hMissing, ?_⟩
    rcases hAsk : source.ask call s with ⟨raised | entry, s'⟩
    · rw [stacked_ask_of_fault hMissing hAsk] at h
      exact h
    · rw [Source.stacked_ask_of_ok hMissing hAsk] at h
      cases h
  · rw [Source.stacked_ask_of_held hAbove hHolder] at h
    cases h

theorem failed_perform (layer : Nat) (work : Upkeep κ) (stack : Stack κ υ) :
    (perform layer work stack).1.failed = false := by
  rw [perform]
  split
  · rfl
  · next cache _ => exact cache.failed_perform work

/-- What happens around a stack: events on the stack itself, and what others do
to its source past all layers. -/
inductive Happening (δ κ υ : Type) where
  | own (event : Event κ υ)
  | direct (call : Access κ υ)
  | directFlush
  | outside (action : δ)

def happen (source : Source σ κ υ) (act : δ → σ → σ) :
    Happening δ κ υ → Stack κ υ × σ → Reply υ × Stack κ υ × σ
  | .own event, state => step source event state
  | .direct call, (stack, s) => ((source.access call s).1, stack, (source.access call s).2)
  | .directFlush, (stack, s) => (.flushed (source.flush s).1, stack, (source.flush s).2)
  | .outside action, (stack, s) => (.done, stack, act action s)

/-- States that differ at most in the marks of failed calls. -/
def Resembles (content : σ → γ) (state state' : Stack κ υ × σ) : Prop :=
  state.1.unmarked = state'.1.unmarked ∧ content state.2 = content state'.2

variable {act : δ → σ → σ} {content : σ → γ}

omit [DecidableEq κ] in
theorem ask_congr (hClean : source.FailsCleanly act content) (h : content s = content t)
    (call : Access κ υ) :
    (source.ask call s).1 = (source.ask call t).1 ∧
      content (source.ask call s).2 = content (source.ask call t).2 := by
  obtain ⟨hReply, hContent⟩ := hClean.access_congr call s t h
  rw [source.access_eq_ask call s, source.access_eq_ask call t] at hContent
  exact ⟨Source.ask_congr_of_access hReply, hContent⟩

/-- A call goes through marked layers as it goes through unmarked ones. -/
theorem ask_unmarked (hClean : source.FailsCleanly act content) (h : content s = content t)
    (call : Access κ υ) (stack : Stack κ υ) :
    (source.stacked.ask call (stack, s)).1 = (source.stacked.ask call (stack.unmarked, t)).1 ∧
      Resembles content (source.stacked.ask call (stack, s)).2
        (source.stacked.ask call (stack.unmarked, t)).2 := by
  rcases missing_or_held call stack with
    hMissing | ⟨above, holder, below, entry, rfl, hAbove, hHolder⟩
  · have hUnmarked : call.Reaches stack.unmarked := Access.Reaches.unmarked hMissing
    obtain ⟨hOutcome, hContent⟩ := ask_congr hClean h call
    rcases hSource : source.ask call s with ⟨outcome, s'⟩
    rcases hOther : source.ask call t with ⟨outcome', t'⟩
    rw [hSource, hOther] at hOutcome hContent
    obtain rfl : outcome = outcome' := hOutcome
    cases outcome with
    | ok entry =>
        rw [Source.stacked_ask_of_ok hMissing hSource, Source.stacked_ask_of_ok hUnmarked hOther]
        refine ⟨rfl, ?_, hContent⟩
        rw [unmarked_map_remember, unmarked_map_remember, unmarked_unmarked]
    | error fault =>
        rw [stacked_ask_of_fault hMissing hSource, stacked_ask_of_fault hUnmarked hOther]
        refine ⟨rfl, ?_, hContent⟩
        rw [unmarked_map_abandon, unmarked_map_abandon, unmarked_unmarked]
  · have hHolder' : call.heldBy holder.unmarked = some entry := by
      rw [Access.heldBy_unmarked, hHolder]
    rw [unmarked_append_cons, Source.stacked_ask_of_held hAbove hHolder,
      Source.stacked_ask_of_held (Access.Reaches.unmarked hAbove) hHolder']
    refine ⟨rfl, ?_, h⟩
    rw [unmarked_append_cons, unmarked_append_cons, unmarked_map_remember, unmarked_map_remember,
      unmarked_unmarked, unmarked_unmarked]
    rfl

theorem perform_unmarked (layer : Nat) (work : Upkeep κ) (stack : Stack κ υ) :
    (perform layer work stack).1.unmarked = (perform layer work stack.unmarked).1.unmarked ∧
      unmarked (perform layer work stack).2 = unmarked (perform layer work stack.unmarked).2 := by
  have hLayer : stack.unmarked[layer]? = stack[layer]?.map ReadCache.unmarked := List.getElem?_map ..
  rw [perform, perform, hLayer]
  cases stack[layer]? with
  | none => exact ⟨rfl, (unmarked_unmarked stack).symm⟩
  | some cache =>
      obtain ⟨hReply, hCache⟩ := cache.perform_unmarked work
      refine ⟨hReply, ?_⟩
      change unmarked (stack.set layer _) = unmarked (stack.unmarked.set layer _)
      rw [unmarked, unmarked, List.map_set, List.map_set, hCache]
      congr 1
      exact (unmarked_unmarked stack).symm

theorem access_unmarked (hClean : source.FailsCleanly act content) (h : content s = content t)
    (call : Access κ υ) (stack : Stack κ υ) :
    (source.stacked.access call (stack, s)).1 =
        (source.stacked.access call (stack.unmarked, t)).1 ∧
      Resembles content (source.stacked.access call (stack, s)).2
        (source.stacked.access call (stack.unmarked, t)).2 := by
  obtain ⟨hOutcome, hAfter⟩ := ask_unmarked hClean h call stack
  rw [Source.access_eq_ask, Source.access_eq_ask, hOutcome]
  exact ⟨rfl, hAfter⟩

omit [DecidableEq κ] in
theorem flushFrom_unmarked (hClean : source.FailsCleanly act content) (h : content s = content t)
    (layer : Nat) (stack : Stack κ υ) :
    (flushFrom source layer stack s).1 = (flushFrom source layer stack.unmarked t).1 ∧
      Resembles content (flushFrom source layer stack s).2
        (flushFrom source layer stack.unmarked t).2 := by
  have hStack : unmarked stack = unmarked stack.unmarked := (unmarked_unmarked stack).symm
  have hForwards : (stack.unmarked.drop layer).all ReadCache.flushSource =
      (stack.drop layer).all ReadCache.flushSource := by
    rw [unmarked, ← List.map_drop, List.all_map]
    rfl
  obtain ⟨hReply, hContent⟩ := hClean.flush_congr s t h
  rw [flushFrom_eq, flushFrom_eq, hForwards]
  split
  · rw [hReply]
    exact ⟨rfl, hStack, hContent⟩
  · exact ⟨rfl, hStack, h⟩

/-- Whatever happens goes the same way whatever marks there are. -/
theorem happen_unmarked (hClean : source.FailsCleanly act content) (h : content s = content t)
    (event : Happening δ κ υ) (stack : Stack κ υ) :
    (happen source act event (stack, s)).1.unmarked =
        (happen source act event (stack.unmarked, t)).1.unmarked ∧
      Resembles content (happen source act event (stack, s)).2
        (happen source act event (stack.unmarked, t)).2 := by
  have hStack : unmarked stack = unmarked stack.unmarked := (unmarked_unmarked stack).symm
  cases event with
  | direct call =>
      obtain ⟨hReply, hContent⟩ := hClean.access_congr call s t h
      exact ⟨congrArg Reply.unmarked hReply, hStack, hContent⟩
  | directFlush =>
      obtain ⟨hReply, hContent⟩ := hClean.flush_congr s t h
      exact ⟨congrArg (fun outcome => Reply.unmarked (.flushed outcome)) hReply, hStack, hContent⟩
  | outside action => exact ⟨rfl, hStack, hClean.act_congr action s t h⟩
  | own event =>
      cases event with
      | access call =>
          obtain ⟨hReply, hAfter⟩ := access_unmarked hClean h call stack
          exact ⟨congrArg Reply.unmarked hReply, hAfter⟩
      | flush layer =>
          obtain ⟨hReply, hAfter⟩ := flushFrom_unmarked hClean h layer stack
          exact ⟨congrArg Reply.unmarked hReply, hAfter⟩
      | upkeep layer work =>
          obtain ⟨hReply, hLayers⟩ := perform_unmarked layer work stack
          exact ⟨hReply, hLayers, h⟩

theorem happen_congr (hClean : source.FailsCleanly act content) {state state' : Stack κ υ × σ}
    (h : Resembles content state state') (event : Happening δ κ υ) :
    (happen source act event state).1.unmarked = (happen source act event state').1.unmarked ∧
      Resembles content (happen source act event state).2 (happen source act event state').2 := by
  obtain ⟨hReply, hAfter⟩ := happen_unmarked hClean h.2 event state.1
  obtain ⟨hReply', hAfter'⟩ := happen_unmarked hClean (Eq.refl (content state'.2)) event state'.1
  rw [← h.1] at hReply' hAfter'
  exact ⟨hReply.trans hReply'.symm, hAfter.1.trans hAfter'.1.symm, hAfter.2.trans hAfter'.2.symm⟩

theorem access_of_failed (hClean : source.FailsCleanly act content) {call : Access κ υ}
    (hFailed : (source.stacked.access call (stack, s)).1.failed = true) :
    Resembles content (source.stacked.access call (stack, s)).2 (stack, s) := by
  obtain ⟨fault, hFault⟩ := Option.isSome_iff_exists.1 hFailed
  obtain ⟨hReaches, hSource⟩ := fault_of_access hFault
  have hSourceFailed : (source.access call s).1.failed = true := by
    rw [Reply.failed, hSource]
    rfl
  rw [access_of_fault hReaches hSource]
  exact ⟨unmarked_map_abandon fault call stack, hClean.access_fault call s hSourceFailed⟩

omit [DecidableEq κ] in
theorem flushFrom_of_failed (hClean : source.FailsCleanly act content) {layer : Nat}
    (hFailed : (flushFrom source layer stack s).1.failed = true) :
    Resembles content (flushFrom source layer stack s).2 (stack, s) := by
  rw [flushFrom_eq] at hFailed ⊢
  split at hFailed
  · next hForwards =>
      obtain ⟨fault, hFault⟩ := Reply.error_of_failed_flushed hFailed
      rw [if_pos hForwards]
      exact ⟨rfl, hClean.flush_fault s fault hFault⟩
  · cases hFailed

/-- What fails leaves nothing but marks. -/
theorem happen_of_failed (hClean : source.FailsCleanly act content) {event : Happening δ κ υ}
    (hFailed : (happen source act event (stack, s)).1.failed = true) :
    Resembles content (happen source act event (stack, s)).2 (stack, s) := by
  cases event with
  | direct call => exact ⟨rfl, hClean.access_fault call s hFailed⟩
  | directFlush =>
      obtain ⟨fault, hFault⟩ := Reply.error_of_failed_flushed hFailed
      exact ⟨rfl, hClean.flush_fault s fault hFault⟩
  | outside action => cases hFailed
  | own event =>
      cases event with
      | access call => exact access_of_failed hClean hFailed
      | flush layer => exact flushFrom_of_failed hClean hFailed
      | upkeep layer work => exact absurd (hFailed.symm.trans (failed_perform ..)) (by decide)

/-- What can be told of a happening: its answer and the state after it, all
without the marks of failed calls. -/
def glimpse (source : Source σ κ υ) (act : δ → σ → σ) (content : σ → γ)
    (event : Happening δ κ υ) (state : Stack κ υ × σ) : Reply υ × Stack κ υ × γ :=
  let reached := happen source act event state
  (reached.1.unmarked, reached.2.1.unmarked, content reached.2.2)

def glimpses (source : Source σ κ υ) (act : δ → σ → σ) (content : σ → γ) :
    List (Happening δ κ υ) → Stack κ υ × σ → List (Reply υ × Stack κ υ × γ) :=
  Run.collect (happen source act) fun event state => some (glimpse source act content event state)

def succeeding? (source : Source σ κ υ) (act : δ → σ → σ) (event : Happening δ κ υ)
    (state : Stack κ υ × σ) : Option (Happening δ κ υ) :=
  if (happen source act event state).1.failed then none else some event

/-- The happenings of a run that do not fail. -/
def succeeding (source : Source σ κ υ) (act : δ → σ → σ) :
    List (Happening δ κ υ) → Stack κ υ × σ → List (Happening δ κ υ) :=
  Run.collect (happen source act) (succeeding? source act)

/-- What can be told of those happenings of a run that do not fail. -/
def succeedingGlimpses (source : Source σ κ υ) (act : δ → σ → σ) (content : σ → γ) :
    List (Happening δ κ υ) → Stack κ υ × σ → List (Reply υ × Stack κ υ × γ) :=
  Run.collect (happen source act) fun event state =>
    (succeeding? source act event state).map fun kept => glimpse source act content kept state

theorem failed_of_succeeding?_eq_none {event : Happening δ κ υ} {state : Stack κ υ × σ}
    (h : succeeding? source act event state = none) :
    (happen source act event state).1.failed = true := by
  rw [succeeding?] at h
  split at h
  · next hFailed => exact hFailed
  · cases h

theorem eq_of_succeeding?_eq_some {event kept : Happening δ κ υ} {state : Stack κ υ × σ}
    (h : succeeding? source act event state = some kept) : event = kept := by
  rw [succeeding?] at h
  split at h
  · cases h
  · exact Option.some.inj h

/-- Failed calls can be erased from a run. -/
theorem glimpses_succeeding (hClean : source.FailsCleanly act content)
    (events : List (Happening δ κ υ)) (state : Stack κ υ × σ) :
    succeedingGlimpses source act content events state =
      glimpses source act content (succeeding source act events state) state := by
  -- the shorter run stays in a state that differs from the longer one's by marks only
  have hSkip : ∀ event (state state' : Stack κ υ × σ), Resembles content state state' →
      succeeding? source act event state = none →
      (succeeding? source act event state).map (fun kept => glimpse source act content kept state) =
          none ∧
        Resembles content (happen source act event state).2 state' := by
    intro event state state' hResembles hNone
    have hSame := happen_of_failed hClean (failed_of_succeeding?_eq_none hNone)
    exact ⟨by rw [hNone]; rfl, hSame.1.trans hResembles.1, hSame.2.trans hResembles.2⟩
  have hKeep : ∀ event kept (state state' : Stack κ υ × σ), Resembles content state state' →
      succeeding? source act event state = some kept →
      (succeeding? source act event state).map (fun kept => glimpse source act content kept state) =
          some (glimpse source act content kept state') ∧
        Resembles content (happen source act event state).2 (happen source act kept state').2 := by
    intro event kept state state' hResembles hSome
    obtain rfl := eq_of_succeeding?_eq_some hSome
    obtain ⟨hReply, hAfter⟩ := happen_congr hClean hResembles event
    refine ⟨?_, hAfter⟩
    rw [hSome, Option.map_some, glimpse, glimpse, hReply, hAfter.1, hAfter.2]
  exact (Run.collect_simulation hSkip hKeep events ⟨rfl, rfl⟩).1

omit [DecidableEq κ] in
/-- A flush fails if and only if it reaches the source and fails there. -/
theorem flush_eq_error_iff {fault : Fault} :
    (flush source stack s).1 = .error fault ↔
      (∀ cache ∈ stack, cache.flushSource = true) ∧ (source.flush s).1 = .error fault := by
  rw [flush_eq, ← List.all_eq_true]
  split
  · next hForwards => exact ⟨fun h => ⟨hForwards, h⟩, And.right⟩
  · next hForwards => exact ⟨nofun, fun h => absurd h.1 hForwards⟩

/-- A call that the source fails hands on the source's own fault, leaves the
source's content, and leaves every layer as it was but for a miss if the call
was a lookup and a poisoned lock if it crashed. Nothing else makes a call fail.
So the failed calls can be erased from any run: all other happenings are
answered alike, the number of misses aside, and after each of them every layer
holds the same entries in the same order under the same other counts. -/
theorem failed_calls_leave_no_trace (hClean : source.FailsCleanly act content) (stack : Stack κ υ)
    (s : σ) :
    (∀ (call : Access κ υ) (fault : Fault),
      ((source.stacked.access call (stack, s)).1.fault? = some fault ↔
        call.Reaches stack ∧ (source.access call s).1.fault? = some fault) ∧
      ((source.stacked.access call (stack, s)).1.fault? = some fault →
        source.stacked.access call (stack, s) =
            ((source.access call s).1, stack.map (call.abandon fault), (source.access call s).2) ∧
          content (source.access call s).2 = content s)) ∧
    (∀ fault : Fault,
      ((source.stacked.flush (stack, s)).1 = .error fault ↔
        (∀ cache ∈ stack, cache.flushSource = true) ∧ (source.flush s).1 = .error fault) ∧
      ((source.stacked.flush (stack, s)).1 = .error fault →
        source.stacked.flush (stack, s) = (.error fault, stack, (source.flush s).2) ∧
          content (source.flush s).2 = content s)) ∧
    ∀ events : List (Happening δ κ υ),
      succeedingGlimpses source act content events (stack, s) =
        glimpses source act content (succeeding source act events (stack, s)) (stack, s) := by
  refine ⟨fun call fault => ⟨⟨fault_of_access, fun h => ?_⟩, fun h => ?_⟩,
    fun fault => ⟨flush_eq_error_iff, fun h => ?_⟩,
    fun events => glimpses_succeeding hClean events (stack, s)⟩
  · rw [access_of_fault h.1 h.2]
    exact h.2
  · obtain ⟨hReaches, hFault⟩ := fault_of_access h
    refine ⟨access_of_fault hReaches hFault, hClean.access_fault call s ?_⟩
    rw [Reply.failed, hFault]
    rfl
  · obtain ⟨hForwards, hFault⟩ := flush_eq_error_iff.1 h
    refine ⟨?_, hClean.flush_fault s fault hFault⟩
    change flush source stack s = _
    rw [flush_eq, if_pos (List.all_eq_true.2 hForwards), hFault]

/-- Two layers over a table that crashes for a while: the lookup and the write
that crash are erased. -/
theorem failed_calls_leave_no_trace_crashing :
    let source : Source (Switched (Table Nat Nat)) Nat Nat := Table.source.crashing
    let act := fun (faulty : Bool) (s : Switched (Table Nat Nat)) => { s with faulty }
    let start : Stack Nat Nat × Switched (Table Nat Nat) :=
      (fresh [(some ⟨1, by decide⟩, true), (none, false)], { inner := .empty })
    source.FailsCleanly act id ∧
      succeedingGlimpses source act id
          [.own (.access (.put 3 7)), .outside true, .own (.access (.get 4)),
            .own (.access (.put 3 8)), .outside false, .own (.access (.get 3)),
            .own (.upkeep 1 .stats)] start =
        glimpses source act id
          [.own (.access (.put 3 7)), .outside true, .outside false, .own (.access (.get 3)),
            .own (.upkeep 1 .stats)] start := by
  intro source act start
  have hClean : source.FailsCleanly act id := Table.failsCleanly_switched _ act
  exact ⟨hClean, ((failed_calls_leave_no_trace hClean start.1 start.2).2.2 _).trans rfl⟩

/-- Without leaving the number of misses aside, erasing a failed lookup does
show: later figures tell of it. -/
theorem erased_lookup_shows_in_misses :
    let source : Source (Switched (Table Nat Nat)) Nat Nat := Table.source.failing
    let act := fun (faulty : Bool) (s : Switched (Table Nat Nat)) => { s with faulty }
    let start : Stack Nat Nat × Switched (Table Nat Nat) :=
      (fresh [(none, false)], { inner := .empty })
    let events : List (Happening Bool Nat Nat) :=
      [.own (.access (.get 0)), .outside true, .own (.access (.get 1)), .outside false,
        .own (.access (.get 0)), .own (.upkeep 0 .stats)]
    let answers := fun events => Run.collect (happen source act)
      (fun event state => (succeeding? source act event state).map fun kept =>
        (happen source act kept state).1) events start
    source.FailsCleanly act id ∧
      succeeding source act events start =
        [.own (.access (.get 0)), .outside true, .outside false, .own (.access (.get 0)),
          .own (.upkeep 0 .stats)] ∧
      (answers events).getLast? = some (.stats ⟨1, 2, 1, 0⟩) ∧
      (answers (succeeding source act events start)).getLast? = some (.stats ⟨1, 1, 1, 0⟩) :=
  ⟨Table.failsCleanly_switched _ _, rfl, rfl, rfl⟩

end Stack

end NodeStore
