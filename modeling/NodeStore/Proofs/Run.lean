import NodeStore.Source

/-!
Runs of a system that answers one event after the other. A step takes an event
and a state to an answer and the next state. Main statements: what is noted
along a run that goes on is noted along its parts, and two systems whose steps
agree note the same.
-/

namespace NodeStore.Run

variable {ε ρ τ α : Type}

/-- The state that a run of events ends in. -/
def final (step : ε → τ → ρ × τ) : List ε → τ → τ
  | [], state => state
  | event :: events, state => final step events (step event state).2

/-- What is noted along a run. A note is made, or not, of an event and the
state that it meets. -/
def collect (step : ε → τ → ρ × τ) (note : ε → τ → Option α) : List ε → τ → List α
  | [], _ => []
  | event :: events, state =>
      (note event state).toList ++ collect step note events (step event state).2

variable {step : ε → τ → ρ × τ} {note : ε → τ → Option α}

/-- A run that goes on ends where its second part ends that starts where the first
ended. -/
theorem final_append (first second : List ε) (state : τ) :
    final step (first ++ second) state = final step second (final step first state) := by
  induction first generalizing state with
  | nil => rfl
  | cons event events ih => exact ih (step event state).2

/-- What is noted along such a run is what is noted along its parts. -/
theorem collect_append (first second : List ε) (state : τ) :
    collect step note (first ++ second) state =
      collect step note first state ++ collect step note second (final step first state) := by
  induction first generalizing state with
  | nil => rfl
  | cons event events ih =>
      simp only [List.cons_append, collect, final, ih, List.append_assoc]

theorem collect_concat (events : List ε) (event : ε) (state : τ) :
    collect step note (events ++ [event]) state =
      collect step note events state ++ (note event (final step events state)).toList := by
  rw [collect_append, collect, collect, List.append_nil]

theorem final_concat (events : List ε) (event : ε) (state : τ) :
    final step (events ++ [event]) state = (step event (final step events state)).2 := by
  rw [final_append, final, final]

/-- What every step keeps holds in the end. -/
theorem final_of_step (Holds : τ → Prop)
    (hStep : ∀ event state, Holds state → Holds (step event state).2) (events : List ε) {state : τ}
    (h : Holds state) : Holds (final step events state) := by
  induction events generalizing state with
  | nil => exact h
  | cons event events ih => exact ih (hStep event state h)

theorem collect_of_events (f : ε → Option α) (events : List ε) (state : τ) :
    collect step (fun event _ => f event) events state = events.filterMap f := by
  induction events generalizing state with
  | nil => rfl
  | cons event events ih =>
      rw [collect, ih, List.filterMap_cons]
      cases f event <;> rfl

/-- To look through the notes of a run is to note only what is looked for. -/
theorem filterMap_collect {β : Type} (f : α → Option β) (events : List ε) (state : τ) :
    (collect step note events state).filterMap f =
      collect step (fun event state => (note event state).bind f) events state := by
  induction events generalizing state with
  | nil => rfl
  | cons event events ih =>
      rw [collect, collect, List.filterMap_append, ih]
      cases note event state with
      | none => rfl
      | some noted => cases hNoted : f noted <;> simp [hNoted]

variable {ε' ρ' τ' : Type} {step' : ε' → τ' → ρ' × τ'} {note' : ε' → τ' → Option α}
  {pick : ε → τ → Option ε'} {Related : τ → τ' → Prop}

/-- A second system that is given the events picked from the run of a first
one notes what the first one notes, if an event that is not picked is not noted
and keeps the states related, and an event that is picked is noted alike. -/
theorem collect_simulation
    (hSkip : ∀ event state state', Related state state' → pick event state = none →
      note event state = none ∧ Related (step event state).2 state')
    (hPick : ∀ event event' state state', Related state state' → pick event state = some event' →
      note event state = note' event' state' ∧
        Related (step event state).2 (step' event' state').2)
    (events : List ε) {state : τ} {state' : τ'} (h : Related state state') :
    collect step note events state = collect step' note' (collect step pick events state) state' ∧
      Related (final step events state) (final step' (collect step pick events state) state') := by
  -- the picked events depend on the first system's state, so both runs advance together
  induction events generalizing state state' with
  | nil => exact ⟨rfl, h⟩
  | cons event events ih =>
      simp only [collect, final]
      cases hPicked : pick event state with
      | none =>
          obtain ⟨hNote, hNext⟩ := hSkip event state state' h hPicked
          rw [hNote]
          exact ih hNext
      | some event' =>
          obtain ⟨hNote, hNext⟩ := hPick event event' state state' h hPicked
          obtain ⟨hNotes, hFinal⟩ := ih hNext
          rw [hNote, hNotes]
          exact ⟨rfl, hFinal⟩

end NodeStore.Run
