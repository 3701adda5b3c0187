import NodeStore.Proofs.Cache.Path
import NodeStore.Proofs.Cache.Transparency

/-!
Laws of the calls on a cache over a table, in whatever state the two are. A write
makes up for every write of the same key right before it, and calls about two
keys that are held may change places.
-/

namespace NodeStore

variable {κ υ : Type}

section Access

variable {call : Access κ υ} {entry : Entry υ}

theorem Access.entry_of_written (h : call.written? = some entry) (map : κ → Option υ) :
    call.entry map = entry := by
  cases call <;> cases h <;> rfl

theorem Access.exists_written_of_isLookup (h : call.isLookup = false) :
    ∃ entry, call.written? = some entry := by
  cases call with
  | get key => cases h
  | put key value => exact ⟨.present value, rfl⟩
  | delete key => exact ⟨.absent, rfl⟩

/-- What becomes of a key depends on a map at that key only. -/
theorem Access.entry_congr {map map' : κ → Option υ} (h : map call.key = map' call.key) :
    call.entry map = call.entry map' := by
  cases call with
  | get key => exact congrArg Entry.ofOption h
  | put key value | delete key => rfl

end Access

namespace ReadCache

variable [DecidableEq κ]

/-- Of two entries remembered under a key, one after the other, only the second
matters. -/
theorem remember_remember (key : κ) (former entry : Entry υ) (cache : ReadCache κ υ) :
    (cache.remember key former).remember key entry = cache.remember key entry := by
  have hHeld := peek_remember_self key former cache
  rw [remember_of_held hHeld]
  cases hPeek : cache.peek key with
  | some held =>
      rw [remember_of_held hPeek, remember_of_held hPeek]
      simp only [Store.replace, Records.replace_replace]
  | none =>
      have hFind : cache.store.find? key = none := by rw [← peek_eq, hPeek]
      have hKept := Records.replace_of_lookup_eq_none (Store.lookup_kept_eq_none hFind) entry
      rw [Records.replace] at hKept
      rw [remember_of_missing hPeek, remember_of_missing hPeek, add_of_missing hPeek,
        add_of_missing hPeek]
      simp only [Store.replace, Records.replace, List.map_append, hKept, List.map_singleton, if_true]

/-- What a call makes of a cache that holds its key: a lookup counts a hit, and
a write puts its entry in the place of the one held. -/
def touch (call : Access κ υ) (cache : ReadCache κ υ) : ReadCache κ υ :=
  match call.written? with
  | none => cache.countHit
  | some entry => { cache with content.store := cache.store.replace call.key entry }

theorem peek_touch_ne {call : Access κ υ} {key : κ} (h : key ≠ call.key) (cache : ReadCache κ υ) :
    (cache.touch call).peek key = cache.peek key := by
  rw [touch, peek_eq, peek_eq]
  cases call.written? with
  | none => rfl
  | some entry => exact Store.find?_replace_ne h entry cache.store

theorem touch_comm {first second : Access κ υ} (h : first.key ≠ second.key) (cache : ReadCache κ υ) :
    (cache.touch first).touch second = (cache.touch second).touch first := by
  simp only [touch]
  cases first.written? with
  | none => cases second.written? <;> rfl
  | some entry =>
      cases second.written? with
      | none => rfl
      | some entry' => simp only [Store.replace, Records.replace_comm h]

/-- Whether two states have the same cache, over tables of the same content. -/
def Agree (state state' : ReadCache κ υ × Table κ υ) : Prop :=
  state.1 = state'.1 ∧ state.2.get? = state'.2.get?

section Table

variable {call first second : Access κ υ} {cache : ReadCache κ υ} {table : Table κ υ} {entry : Entry υ}

/-- What a call about a key makes of a table. -/
theorem get?_access (call : Access κ υ) (table : Table κ υ) (other : κ) :
    (Table.source.access call table).2.get? other =
      if other = call.key then (call.entry table.get?).value? else table.get? other := by
  rw [Source.access_eq_ask]
  exact Table.isMap_source.content_ask call table other

/-- A write to a cache over a table always goes through. -/
theorem step_of_written (h : call.written? = some entry) (cache : ReadCache κ υ) (table : Table κ υ) :
    step Table.source (.access call) (cache, table) =
      (.wrote (.ok ()), cache.remember call.key entry, (Table.source.access call table).2) := by
  have hAsk : Table.source.ask call table = (.ok entry, (Table.source.access call table).2) := by
    cases call <;> cases h <;> rfl
  rw [step, Source.access_eq_ask,
    Source.cached_ask_of_ok (Access.heldBy_of_written h cache) hAsk]
  cases call <;> cases h <;> rfl

theorem step_of_held (h : cache.peek call.key = some entry) (table : Table κ υ) :
    step Table.source (.access call) (cache, table) =
      (call.reply (.ok entry), cache.touch call, (Table.source.access call table).2) := by
  cases call with
  | get key =>
      have hHeld : (Access.get key : Access κ υ).heldBy cache = some entry := h
      rw [step, Source.access_eq_ask, Source.cached_ask_of_held hHeld]
      rfl
  | put key value =>
      rw [step_of_written rfl, remember_of_held h]
      rfl
  | delete key =>
      rw [step_of_written rfl, remember_of_held h]
      rfl

/-- A call on a cache over a table succeeds, and leaves under its key what it
brought out or wrote. -/
theorem peek_step_access (call : Access κ υ) (cache : ReadCache κ υ) (table : Table κ υ) :
    let reached := step Table.source (.access call) (cache, table)
    ∃ entry, (call.written? = some entry ∧ reached.1 = .wrote (.ok ()) ∨
        reached.1 = .got (.ok entry.value?)) ∧
      reached.2.1.peek call.key = some entry := by
  cases hWritten : call.written? with
  | some entry =>
      rw [step_of_written hWritten]
      exact ⟨entry, .inl ⟨rfl, rfl⟩, peek_remember_self ..⟩
  | none =>
      cases call with
      | put key value | delete key => cases hWritten
      | get key =>
          cases hPeek : cache.peek key with
          | some entry =>
              have hHeld : (Access.get key : Access κ υ).heldBy cache = some entry := hPeek
              rw [step, Source.access_eq_ask, Source.cached_ask_of_held hHeld]
              have hAfter : cache.countHit.peek key = some entry := by
                rw [← hPeek]
                exact peek_congr rfl
              exact ⟨entry, .inr rfl, hAfter⟩
          | none =>
              have hHeld : (Access.get key : Access κ υ).heldBy cache = none := hPeek
              have hAsk : Table.source.ask (.get key) table =
                  (.ok (.ofOption (table.get? key)), table) := rfl
              rw [step, Source.access_eq_ask, Source.cached_ask_of_ok hHeld hAsk]
              exact ⟨_, .inr rfl, peek_remember_self ..⟩

/-- A write makes up for a write of the same key right before it. -/
theorem agree_of_writes (hKey : first.key = second.key) (hFirst : first.isLookup = false)
    (hSecond : second.isLookup = false) (cache : ReadCache κ υ) (table : Table κ υ) :
    Agree (step Table.source (.access second) (step Table.source (.access first) (cache, table)).2).2
      (step Table.source (.access second) (cache, table)).2 := by
  obtain ⟨former, hFormer⟩ := Access.exists_written_of_isLookup hFirst
  obtain ⟨entry, hEntry⟩ := Access.exists_written_of_isLookup hSecond
  rw [step_of_written hFormer, step_of_written hEntry, step_of_written hEntry, hKey]
  refine ⟨remember_remember second.key former entry cache, funext fun other => ?_⟩
  rw [get?_access, get?_access, get?_access, Access.entry_of_written hEntry,
    Access.entry_of_written hEntry, hKey]
  split <;> rfl

/-- Calls about two keys leave the same in a table in either order. -/
theorem get?_access_comm (h : first.key ≠ second.key) (table : Table κ υ) :
    (Table.source.access second (Table.source.access first table).2).2.get? =
      (Table.source.access first (Table.source.access second table).2).2.get? := by
  have hFirst : (Table.source.access second table).2.get? first.key = table.get? first.key := by
    rw [get?_access, if_neg h]
  have hSecond : (Table.source.access first table).2.get? second.key = table.get? second.key := by
    rw [get?_access, if_neg (Ne.symm h)]
  funext other
  rw [get?_access, get?_access, get?_access first, get?_access second table,
    Access.entry_congr hFirst, Access.entry_congr hSecond]
  by_cases hOther : other = second.key
  · rw [if_pos hOther, if_neg (hOther ▸ Ne.symm h), if_pos hOther]
  · rw [if_neg hOther, if_neg hOther]

/-- Calls about two keys that are held are answered alike in either order, and
leave the same. -/
theorem steps_comm {entry' : Entry υ} (h : first.key ≠ second.key)
    (hFirst : cache.peek first.key = some entry) (hSecond : cache.peek second.key = some entry')
    (table : Table κ υ) :
    let afterFirst := step Table.source (.access first) (cache, table)
    let afterSecond := step Table.source (.access second) (cache, table)
    (step Table.source (.access first) afterSecond.2).1 = afterFirst.1 ∧
      (step Table.source (.access second) afterFirst.2).1 = afterSecond.1 ∧
      Agree (step Table.source (.access second) afterFirst.2).2
        (step Table.source (.access first) afterSecond.2).2 := by
  have hFirst' : (cache.touch second).peek first.key = some entry := by
    rw [peek_touch_ne h, hFirst]
  have hSecond' : (cache.touch first).peek second.key = some entry' := by
    rw [peek_touch_ne (Ne.symm h), hSecond]
  simp only [step_of_held hFirst, step_of_held hSecond, step_of_held hFirst', step_of_held hSecond',
    true_and]
  exact ⟨touch_comm h cache, get?_access_comm h table⟩

end Table

/-- Laws of the calls on a cache of any bound over a table, in every state. A call
always succeeds and leaves under its key the entry that it brought out or wrote,
also if the key is new to a cache that is at its bound, so that a lookup right
after it is a hit. A write leaves all as if there had been no write of the same
key right before it. And calls about two different keys that are held, lookups or
writes, are answered alike in either order and leave the same cache over a table
of the same content. -/
theorem calls_absorb_and_commute (cache : ReadCache κ υ) (table : Table κ υ) :
    let perform := fun (call : Access κ υ) (state : ReadCache κ υ × Table κ υ) =>
      step Table.source (.access call) state
    let state := (cache, table)
    (∀ call : Access κ υ,
      let reached := perform call state
      ∃ entry, (call.written? = some entry ∧ reached.1 = .wrote (.ok ()) ∨
          reached.1 = .got (.ok entry.value?)) ∧
        reached.2.1.peek call.key = some entry ∧
        perform (.get call.key) reached.2 =
          (.got (.ok entry.value?), reached.2.1.countHit, reached.2.2)) ∧
    (∀ first second : Access κ υ, first.key = second.key →
      first.isLookup = false → second.isLookup = false →
      Agree (perform second (perform first state).2).2 (perform second state).2) ∧
    ∀ first second : Access κ υ, first.key ≠ second.key →
      (cache.peek first.key).isSome = true → (cache.peek second.key).isSome = true →
      (perform first (perform second state).2).1 = (perform first state).1 ∧
      (perform second (perform first state).2).1 = (perform second state).1 ∧
      Agree (perform second (perform first state).2).2 (perform first (perform second state).2).2 := by
  intro perform state
  refine ⟨fun call => ?_, fun first second hKey hFirst hSecond =>
    agree_of_writes hKey hFirst hSecond cache table, fun first second hKeys hFirst hSecond => ?_⟩
  · obtain ⟨entry, hAnswer, hPeek⟩ := peek_step_access call cache table
    have hHeld : (perform call state).2.1.peek (Access.get call.key : Access κ υ).key = some entry :=
      hPeek
    exact ⟨entry, hAnswer, hPeek, step_of_held hHeld _⟩
  · obtain ⟨entry, hEntry⟩ := Option.isSome_iff_exists.1 hFirst
    obtain ⟨entry', hEntry'⟩ := Option.isSome_iff_exists.1 hSecond
    exact steps_comm hKeys hEntry hEntry' table

/-- A cache that is full with keys 1 and 2, over a table. The first write of key 3
drives out key 1, the second one only replaces the first; and a write of key 1
may change places with a lookup of key 2. -/
theorem calls_absorb_and_commute_full :
    let table : Table Nat Nat := .ofList [(2, 20)]
    let start : ReadCache Nat Nat := fresh (some ⟨2, by decide⟩) false
    let state := Run.final (step Table.source) [.access (.put 1 10), .access (.get 2)] (start, table)
    let perform := fun (call : Access Nat Nat) (state : ReadCache Nat Nat × Table Nat Nat) =>
      step Table.source (.access call) state
    Reachable Table.source state ∧ state.1.size = 2 ∧
      (perform (.put 3 30) state).2.1.peek 1 = none ∧
      Agree (perform (.put 3 31) (perform (.put 3 30) state).2).2 (perform (.put 3 31) state).2 ∧
      (perform (.get 2) (perform (.put 1 11) state).2).1 = .got (.ok (some 20)) ∧
      Agree (perform (.get 2) (perform (.put 1 11) state).2).2
        (perform (.put 1 11) (perform (.get 2) state).2).2 := by
  intro table start state perform
  have hStart : Reachable Table.source (start, table) :=
    .ofSettings (rfl : ofSettings ⟨some 2, false⟩ = .ok start) table
  obtain ⟨-, hAbsorb, hCommute⟩ := calls_absorb_and_commute state.1 state.2
  obtain ⟨-, hAnswer, hAgree⟩ :=
    hCommute (.put 1 11) (.get 2) (by decide : (1 : Nat) ≠ 2) (by cbv) (by cbv)
  exact ⟨hStart.run _, by cbv, by cbv, hAbsorb (.put 3 30) (.put 3 31) rfl rfl rfl,
    hAnswer.trans (by cbv), hAgree⟩

end ReadCache

end NodeStore
