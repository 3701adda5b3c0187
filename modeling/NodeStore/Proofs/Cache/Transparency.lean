import NodeStore.Proofs.Cache.Effect
import NodeStore.Source.Counted
import NodeStore.Source.Table

/-!
Caches over a source that behaves as a map. What every layer remembers agrees
with the source at every moment of a run, so callers of the top layer see the
source itself.
-/

namespace NodeStore

variable {κ υ σ : Type} [DecidableEq κ]

/-- A source whose states stand for maps. Its lookups and writes never fail;
a flush may answer anything, but it changes no content. -/
structure Source.IsMap (source : Source σ κ υ) (content : σ → κ → Option υ) : Prop where
  get_eq : ∀ key s, (source.get key s).1 = .ok (content s key)
  put_eq : ∀ key value s, (source.put key value s).1 = .ok ()
  delete_eq : ∀ key s, (source.delete key s).1 = .ok ()
  content_get : ∀ key s, content (source.get key s).2 = content s
  content_put : ∀ key value s other,
    content (source.put key value s).2 other = if other = key then some value else content s other
  content_delete : ∀ key s other,
    content (source.delete key s).2 other = if other = key then none else content s other
  content_flush : ∀ s, content (source.flush s).2 = content s

theorem Table.isMap_source : (Table.source : Source (Table κ υ) κ υ).IsMap Table.get? where
  get_eq _ _ := rfl
  put_eq _ _ _ := rfl
  delete_eq _ _ := rfl
  content_get _ _ := rfl
  content_put key value table other := get?_insert key other value table
  content_delete key table other := get?_erase key other table
  content_flush _ := rfl

/-- What becomes of the key of a call to a map. -/
def Access.entry (map : κ → Option υ) : Access κ υ → Entry υ
  | .get key => .ofOption (map key)
  | .put _ value => .present value
  | .delete _ => .absent

namespace Source.IsMap

variable {source : Source σ κ υ} {content : σ → κ → Option υ}

theorem counted (hMap : source.IsMap content) : source.counted.IsMap fun s => content s.inner where
  get_eq key s := hMap.get_eq key s.inner
  put_eq key value s := hMap.put_eq key value s.inner
  delete_eq key s := hMap.delete_eq key s.inner
  content_get key s := hMap.content_get key s.inner
  content_put key value s := hMap.content_put key value s.inner
  content_delete key s := hMap.content_delete key s.inner
  content_flush _ := rfl

theorem ask_eq (hMap : source.IsMap content) (call : Access κ υ) (s : σ) :
    (source.ask call s).1 = .ok (call.entry (content s)) := by
  cases call with
  | get key => rw [Source.ask, hMap.get_eq]; rfl
  | put key value => rw [Source.ask, hMap.put_eq]; rfl
  | delete key => rw [Source.ask, hMap.delete_eq]; rfl

/-- A call touches only its own key. -/
theorem content_ask (hMap : source.IsMap content) (call : Access κ υ) (s : σ) (other : κ) :
    content (source.ask call s).2 other =
      if other = call.key then (call.entry (content s)).value? else content s other := by
  cases call with
  | put key value => exact hMap.content_put key value s other
  | delete key => exact hMap.content_delete key s other
  | get key =>
      have hContent : content (source.ask (.get key) s).2 other = content s other :=
        congrFun (hMap.content_get key s) other
      rw [hContent]
      split
      · next hOther => rw [hOther, Access.entry, Entry.value?_ofOption]; rfl
      · rfl

end Source.IsMap

def Source.answered (source : Source σ κ υ) (call : Access κ υ) (s : σ) :
    Option (Access κ υ × Reply υ) :=
  some (call, (source.access call s).1)

/-- Each entry is what a lookup in the map answers, absence included. -/
def ReadCache.Coherent (map : κ → Option υ) (cache : ReadCache κ υ) : Prop :=
  ∀ record ∈ cache.store.items, record.2 = .ofOption (map record.1)

def Stack.Coherent (map : κ → Option υ) (stack : Stack κ υ) : Prop :=
  ∀ cache ∈ stack, cache.Coherent map

namespace ReadCache.Coherent

variable {map map' : κ → Option υ} {cache cache' : ReadCache κ υ}

/-- A coherent cache answers a call as the map does. -/
theorem entry_eq (h : cache.Coherent map) {call : Access κ υ} {entry : Entry υ}
    (hHeld : call.heldBy cache = some entry) :
    entry = call.entry map ∧ entry.value? = map call.key := by
  cases call with
  | put key value => cases hHeld
  | delete key => cases hHeld
  | get key =>
      rw [Access.heldBy_get] at hHeld
      have hEntry : entry = .ofOption (map key) :=
        h (key, entry) (Store.mem_of_find?_eq_some hHeld)
      exact ⟨hEntry, by rw [hEntry, Entry.value?_ofOption]; rfl⟩

omit [DecidableEq κ] in
theorem of_subset (h : cache.Coherent map) (hSubset : cache'.store.items ⊆ cache.store.items) :
    cache'.Coherent map :=
  fun record hRecord => h record (hSubset hRecord)

/-- Remembering what has just become of one key keeps a cache coherent. -/
theorem remember (h : cache.Coherent map) {key : κ} {entry : Entry υ}
    (hMap : ∀ other, map' other = if other = key then entry.value? else map other) :
    (cache.remember key entry).Coherent map' := by
  intro record hRecord
  rcases mem_items_remember hRecord with rfl | ⟨hOld, hNe⟩
  · rw [hMap, if_pos rfl, Entry.ofOption_value?]
  · rw [h record hOld, hMap, if_neg hNe]

omit [DecidableEq κ] in
theorem pass (h : cache.Coherent map) (call : Access κ υ) : (call.pass cache).Coherent map :=
  h.of_subset (by rw [Access.store_pass]; exact List.Subset.refl _)

end ReadCache.Coherent

namespace Stack

variable {source : Source σ κ υ} {content : σ → κ → Option υ} {stack : Stack κ υ} {s : σ}

omit [DecidableEq κ] in
theorem coherent_fresh (map : κ → Option υ) (layers : List (Option Capacity × Bool)) :
    Coherent map (fresh layers : Stack κ υ) := by
  intro cache hCache
  obtain ⟨layer, _, rfl⟩ := List.mem_map.1 hCache
  intro record hRecord
  rw [ReadCache.items_fresh] at hRecord
  exact absurd hRecord List.not_mem_nil

theorem Coherent.remember {map map' : κ → Option υ} (hStack : stack.Coherent map)
    {call : Access κ υ} {entry : Entry υ}
    (hMap : ∀ other, map' other = if other = call.key then entry.value? else map other) :
    Coherent map' (stack.map fun cache => (call.pass cache).remember call.key entry) := by
  intro cache hCache
  obtain ⟨old, hOld, rfl⟩ := List.mem_map.1 hCache
  exact ((hStack old hOld).pass call).remember hMap

/-- A call through coherent layers becomes what it becomes of the map, and the
layers agree with the map afterwards. -/
theorem ask_of_isMap (hMap : source.IsMap content) (hStack : stack.Coherent (content s))
    (call : Access κ υ) :
    let reached := source.stacked.ask call (stack, s)
    reached.1 = .ok (call.entry (content s)) ∧
      content reached.2.2 = content (source.ask call s).2 ∧
      Coherent (content reached.2.2) reached.2.1 := by
  have hAsked := hMap.content_ask call s
  rcases missing_or_held call stack with
    hMissing | ⟨above, holder, below, entry, rfl, hAbove, hHolder⟩
  · have hSource : source.ask call s = (.ok (call.entry (content s)), (source.ask call s).2) :=
      Prod.ext (hMap.ask_eq call s) rfl
    rw [Source.stacked_ask_of_ok hMissing hSource]
    exact ⟨rfl, rfl, hStack.remember hAsked⟩
  · have hHolderIn : holder ∈ above ++ holder :: below := by simp
    obtain ⟨hEntry, hValue⟩ := (hStack holder hHolderIn).entry_eq hHolder
    -- The source is not asked, and asking it would have changed nothing.
    have hUnchanged : ∀ other,
        content s other = if other = call.key then entry.value? else content s other := by
      intro other
      split
      · next hOther => rw [hOther, hValue]
      · rfl
    rw [Source.stacked_ask_of_held hAbove hHolder]
    refine ⟨by rw [hEntry], funext fun other => ?_, fun cache hCache => ?_⟩
    · rw [hAsked, ← hEntry]
      exact hUnchanged other
    · have hAboveCoherent : Coherent (content s) above := fun cache hCache =>
        hStack cache (List.mem_append_left _ hCache)
      rcases List.mem_append.1 hCache with hCache | hCache
      · exact hAboveCoherent.remember hUnchanged cache hCache
      · rcases List.mem_cons.1 hCache with rfl | hCache
        · exact hStack holder hHolderIn
        · exact hStack cache (List.mem_append_right _ (List.mem_cons_of_mem _ hCache))

theorem Coherent.perform {map : κ → Option υ} (hStack : stack.Coherent map) (layer : Nat)
    (work : Upkeep κ) : Coherent map (Stack.perform layer work stack).2 := by
  rw [Stack.perform]
  split
  · exact hStack
  · next cache hLayer =>
      intro changed hChanged
      rcases List.mem_or_eq_of_mem_set hChanged with hOld | rfl
      · exact hStack changed hOld
      · have hCache := hStack cache (List.mem_of_getElem? hLayer)
        exact hCache.of_subset (ReadCache.items_perform_subset work cache)

theorem flushFrom_of_isMap (hMap : source.IsMap content) (hStack : stack.Coherent (content s))
    (layer : Nat) :
    let reached := flushFrom source layer stack s
    content reached.2.2 = content s ∧ Coherent (content reached.2.2) reached.2.1 := by
  rw [flushFrom_eq]
  split
  · exact ⟨hMap.content_flush s, (hMap.content_flush s).symm ▸ hStack⟩
  · exact ⟨rfl, hStack⟩

/-- An event beside its answer, if it is a call about a key. -/
def answered (source : Source σ κ υ) (event : Event κ υ) (state : Stack κ υ × σ) :
    Option (Access κ υ × Reply υ) :=
  event.access?.map fun call => (call, (step source event state).1)

/-- Coherent layers over one state of a source, and another state of the same
content. -/
def Mirrors (content : σ → κ → Option υ) (state : Stack κ υ × σ) (t : σ) : Prop :=
  state.1.Coherent (content state.2) ∧ content state.2 = content t

theorem Mirrors.of_other {event : Event κ υ} {state : Stack κ υ × σ} {t : σ}
    (h : Mirrors content state t) (hMap : source.IsMap content) (hEvent : event.access? = none) :
    answered source event state = none ∧ Mirrors content (step source event state).2 t := by
  refine ⟨by rw [answered, hEvent, Option.map_none], ?_⟩
  cases event with
  | access call => cases hEvent
  | flush layer =>
      obtain ⟨hContent, hAfter⟩ := flushFrom_of_isMap hMap h.1 layer
      exact ⟨hAfter, hContent.trans h.2⟩
  | upkeep layer work => exact ⟨h.1.perform layer work, h.2⟩

theorem Mirrors.of_access {event : Event κ υ} {call : Access κ υ} {state : Stack κ υ × σ} {t : σ}
    (h : Mirrors content state t) (hMap : source.IsMap content)
    (hEvent : event.access? = some call) :
    answered source event state = source.answered call t ∧
      Mirrors content (step source event state).2 (source.access call t).2 := by
  cases event with
  | flush layer => cases hEvent
  | upkeep layer work => cases hEvent
  | access called =>
      cases hEvent
      obtain ⟨hAnswer, hContent, hAfter⟩ := ask_of_isMap hMap h.1 call
      have hStep : step source (.access call) state = source.stacked.access call state := rfl
      have hEntry : call.entry (content state.2) = call.entry (content t) := by rw [h.2]
      rw [Mirrors, answered, Source.answered, hStep, Source.access_eq_ask, Source.access_eq_ask]
      refine ⟨?_, hAfter, hContent.trans (funext fun other => ?_)⟩
      · rw [hAnswer, hMap.ask_eq call t, hEntry]
        rfl
      · rw [hMap.content_ask, hMap.content_ask, h.2]

/-- A run of a stack and the run of its calls about keys on the bare source
stay mirrors of each other, and answer alike. -/
theorem Mirrors.run {state : Stack κ υ × σ} {t : σ} (h : Mirrors content state t)
    (hMap : source.IsMap content) (events : List (Event κ υ)) :
    let calls := events.filterMap Event.access?
    Run.collect (step source) (answered source) events state =
        Run.collect source.access source.answered calls t ∧
      Mirrors content (Run.final (step source) events state)
        (Run.final source.access calls t) := by
  intro calls
  have hCalls : Run.collect (step source) (fun event _ => event.access?) events state = calls :=
    Run.collect_of_events Event.access? events state
  rw [← hCalls]
  exact Run.collect_simulation (fun _ _ _ hMirrors => hMirrors.of_other hMap)
    (fun _ _ _ _ hMirrors => hMirrors.of_access hMap) events h

/-- Caches are transparent. Over a source that behaves as a map, from fresh
caches, calls about keys through the top layer are answered as the source alone
would answer them, whatever else is done to the layers in between; the source
ends with the same content; and at every moment all layers agree with it. -/
theorem run_eq_bare_source (hMap : source.IsMap content) (layers : List (Option Capacity × Bool))
    (events : List (Event κ υ)) (s : σ) :
    let start : Stack κ υ × σ := (fresh layers, s)
    let calls := events.filterMap Event.access?
    Run.collect (step source) (answered source) events start =
        Run.collect source.access source.answered calls s ∧
      content (Run.final (step source) events start).2 =
        content (Run.final source.access calls s) ∧
      ∀ earlier, earlier <+: events →
        let moment := Run.final (step source) earlier start
        Coherent (content moment.2) moment.1 := by
  intro start calls
  have hStart : Mirrors content start s := ⟨coherent_fresh (content s) layers, rfl⟩
  obtain ⟨hAnswers, hFinal⟩ := hStart.run hMap events
  exact ⟨hAnswers, hFinal.2, fun earlier _ => (hStart.run hMap earlier).2.1⟩

/-- A bounded cache over an unbounded one over a counted table, with keys that
drive each other out of the top layer. -/
theorem run_eq_bare_source_counted :
    let source : Source (Counted (Table Nat Nat)) Nat Nat := Table.source.counted
    let layers := [(some ⟨1, by decide⟩, true), (none, false)]
    let events : List (Event Nat Nat) :=
      [.access (.get 3), .access (.put 3 7), .upkeep 1 (.invalidate 3), .access (.put 4 1),
        .flush 0, .access (.get 3), .upkeep 0 .stats, .access (.delete 3), .access (.get 3)]
    source.IsMap (fun s => s.inner.get?) ∧
      Run.collect (step source) (answered source) events (fresh layers, { inner := .empty }) =
        [(.get 3, .got (.ok none)), (.put 3 7, .wrote (.ok ())), (.put 4 1, .wrote (.ok ())),
          (.get 3, .got (.ok (some 7))), (.delete 3, .wrote (.ok ())), (.get 3, .got (.ok none))] := by
  intro source layers events
  have hMap : source.IsMap fun s => s.inner.get? := Table.isMap_source.counted
  exact ⟨hMap, (run_eq_bare_source hMap layers events { inner := .empty }).1.trans rfl⟩

end Stack

end NodeStore
