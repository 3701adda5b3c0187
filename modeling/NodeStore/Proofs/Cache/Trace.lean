import NodeStore.Proofs.Cache.Effect

/-!
The calls that a cache, or a stack of caches, makes on its source. They are told
by a source that notes each call before it hands it on; nothing else about a run
changes when it takes the place of the source.
-/

namespace NodeStore

variable {κ υ σ : Type}

/-- A call on a source. -/
inductive Request (κ υ : Type) where
  | access (access : Access κ υ)
  | flush

/-- A state with the calls made on it, in their order. -/
structure Noted (σ κ υ : Type) where
  inner : σ
  requests : List (Request κ υ) := []

/-- What calls leave behind: the state of the source, and a note of each. -/
def Noted.note (requests : List (Request κ υ)) (inner : σ) (s : Noted σ κ υ) : Noted σ κ υ :=
  { inner, requests := s.requests ++ requests }

@[simp] theorem Noted.inner_note (requests : List (Request κ υ)) (inner : σ) (s : Noted σ κ υ) :
    (s.note requests inner).inner = inner := rfl

@[simp] theorem Noted.note_nil (s : Noted σ κ υ) : s.note [] s.inner = s := by
  rw [note, List.append_nil]

@[simp] theorem Noted.note_note (first second : List (Request κ υ)) (middle inner : σ)
    (s : Noted σ κ υ) : (s.note first middle).note second inner = s.note (first ++ second) inner := by
  simp only [note, List.append_assoc]

/-- Notes every call, and hands it on. -/
def Source.noted (source : Source σ κ υ) : Source (Noted σ κ υ) κ υ where
  get key s :=
    let (outcome, inner) := source.get key s.inner
    (outcome, s.note [.access (.get key)] inner)
  put key value s :=
    let (outcome, inner) := source.put key value s.inner
    (outcome, s.note [.access (.put key value)] inner)
  delete key s :=
    let (outcome, inner) := source.delete key s.inner
    (outcome, s.note [.access (.delete key)] inner)
  flush s :=
    let (outcome, inner) := source.flush s.inner
    (outcome, s.note [.flush] inner)

theorem Source.noted_ask (source : Source σ κ υ) (call : Access κ υ) (s : Noted σ κ υ) :
    source.noted.ask call s =
      ((source.ask call s.inner).1, s.note [.access call] (source.ask call s.inner).2) := by
  cases call <;> rfl

namespace ReadCache

/-- The same event over a source that notes its calls. What happens behind the
cache's back is not noted. -/
def Event.noted : Event σ κ υ → Event (Noted σ κ υ) κ υ
  | .access call => .access call
  | .flush => .flush
  | .upkeep work => .upkeep work
  | .outside change => .outside fun s => { s with inner := change s.inner }

variable [DecidableEq κ]

/-- A call about a key is passed on if the cache cannot answer it by itself. -/
def request? (cache : ReadCache κ υ) (call : Access κ υ) : Option (Request κ υ) :=
  match call.heldBy cache with
  | some _ => none
  | none => some (.access call)

/-- The call that an event makes a cache pass on. A flush is passed on if the
cache is set to hand it on. -/
def Event.request? (cache : ReadCache κ υ) : Event σ κ υ → Option (Request κ υ)
  | .access call => cache.request? call
  | .flush => if cache.flushSource then some .flush else none
  | .upkeep _ => none
  | .outside _ => none

/-- The calls that a run makes on the source. -/
def requests (source : Source σ κ υ) : List (Event σ κ υ) → ReadCache κ υ × σ → List (Request κ υ) :=
  Run.collect (step source) fun event state => event.request? state.1

/-- A call goes alike over a source that notes it. -/
theorem cached_ask_noted (source : Source σ κ υ) (call : Access κ υ) (cache : ReadCache κ υ)
    (s : Noted σ κ υ) :
    source.noted.cached.ask call (cache, s) =
      let reached := source.cached.ask call (cache, s.inner)
      (reached.1, reached.2.1, s.note (cache.request? call).toList reached.2.2) := by
  cases hHeld : call.heldBy cache with
  | some entry =>
      rw [Source.cached_ask_of_held hHeld, Source.cached_ask_of_held hHeld]
      simp [request?, hHeld]
  | none =>
      have hNoted := source.noted_ask call s
      rcases hAsk : source.ask call s.inner with ⟨fault | entry, inner⟩
      · rw [hAsk] at hNoted
        rw [Source.cached_ask_of_fault hHeld hAsk, Source.cached_ask_of_fault hHeld hNoted]
        simp [request?, hHeld]
      · rw [hAsk] at hNoted
        rw [Source.cached_ask_of_ok hHeld hAsk, Source.cached_ask_of_ok hHeld hNoted]
        simp [request?, hHeld]

/-- An event is answered alike over a source that notes its calls, and leaves
the same cache and the same source. -/
theorem step_noted (source : Source σ κ υ) (event : Event σ κ υ) (cache : ReadCache κ υ)
    (s : Noted σ κ υ) :
    step source.noted event.noted (cache, s) =
      let reached := step source event (cache, s.inner)
      (reached.1, reached.2.1, s.note (event.request? cache).toList reached.2.2) := by
  cases event with
  | access call =>
      change source.noted.cached.access call (cache, s) = _
      rw [Source.access_eq_ask, cached_ask_noted]
      simp only [step, Source.access_eq_ask, Event.request?]
  | flush =>
      simp only [step, Event.noted, Source.cached, flush, Event.request?]
      split
      · rfl
      · simp
  | upkeep work => simp [step, Event.noted, Event.request?]
  | outside change => simp [step, Event.noted, Event.request?, Noted.note]

/-- Along a run, the calls noted by the source are those that the cache passes
on. -/
theorem final_noted (source : Source σ κ υ) (events : List (Event σ κ υ)) (cache : ReadCache κ υ)
    (s : Noted σ κ υ) :
    Run.final (step source.noted) (events.map Event.noted) (cache, s) =
      let reached := Run.final (step source) events (cache, s.inner)
      (reached.1, s.note (requests source events (cache, s.inner)) reached.2) := by
  induction events generalizing cache s with
  | nil => simp [Run.final, requests, Run.collect]
  | cons event events ih =>
      rw [List.map_cons, Run.final, step_noted, ih]
      simp only [Run.final, requests, Run.collect, Noted.note_note, Noted.inner_note]

end ReadCache

namespace Stack

variable [DecidableEq κ]

/-- The call that an event on a stack makes on the source. A call about a key is
passed on if no layer can answer it by itself, a flush if all layers that it
comes through are set to hand it on. -/
def Event.request? (stack : Stack κ υ) : Event κ υ → Option (Request κ υ)
  | .access call =>
      if stack.all fun cache => (call.heldBy cache).isNone then some (.access call) else none
  | .flush layer => if (stack.drop layer).all ReadCache.flushSource then some .flush else none
  | .upkeep _ _ => none

/-- A call goes through the layers alike over a source that notes it. -/
theorem stacked_ask_noted (source : Source σ κ υ) (call : Access κ υ) (stack : Stack κ υ)
    (s : Noted σ κ υ) :
    source.noted.stacked.ask call (stack, s) =
      let reached := source.stacked.ask call (stack, s.inner)
      (reached.1, reached.2.1, s.note (Event.request? stack (.access call)).toList reached.2.2) := by
  rcases missing_or_held call stack with
    hMissing | ⟨above, holder, below, entry, rfl, hAbove, hHolder⟩
  · have hAll : stack.all (fun cache => (call.heldBy cache).isNone) = true := by
      simpa [List.all_eq_true, Option.isNone_iff_eq_none] using hMissing
    have hNoted := source.noted_ask call s
    rcases hAsk : source.ask call s.inner with ⟨fault | entry, inner⟩
    · rw [hAsk] at hNoted
      rw [Source.stacked_ask_of_fault hMissing hAsk, Source.stacked_ask_of_fault hMissing hNoted]
      simp [Event.request?, hAll]
    · rw [hAsk] at hNoted
      rw [Source.stacked_ask_of_ok hMissing hAsk, Source.stacked_ask_of_ok hMissing hNoted]
      simp [Event.request?, hAll]
  · rw [Source.stacked_ask_of_held hAbove hHolder, Source.stacked_ask_of_held hAbove hHolder]
    simp [Event.request?, hHolder]

/-- An event on a stack is answered alike over a source that notes its calls, and
leaves the same layers and the same source. -/
theorem step_noted (source : Source σ κ υ) (event : Event κ υ) (stack : Stack κ υ)
    (s : Noted σ κ υ) :
    step source.noted event (stack, s) =
      let reached := step source event (stack, s.inner)
      (reached.1, reached.2.1, s.note (event.request? stack).toList reached.2.2) := by
  cases event with
  | access call => simp only [step, Source.access_eq_ask, stacked_ask_noted]
  | flush layer =>
      simp only [step, flushFrom_eq, Event.request?]
      split
      · rfl
      · simp
  | upkeep layer work => simp [step, Event.request?]

end Stack

end NodeStore
