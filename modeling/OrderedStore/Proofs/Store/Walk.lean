import Mathlib.Data.List.Nodup
import OrderedStore.Proofs.Store.Paging

/-!
# Walks among writes

A cursor walks a store in pages while the store is written to.

Main definitions:

- `Cursor.Replied`: how a call that asks for more is answered.
- `Cursor.Walk`: a cursor and its store under any sequence of calls, with the history of the calls.
- `Cursor.Faithful`: what a history shows of a walk that can be relied on.

Main statement: `Cursor.walk_faithful`.
-/

namespace OrderedStore

namespace Cursor

variable {σ H : Type} [Backend (StateM σ) H] {content : H → σ → Plain} {ready : H → σ → Prop}
  {start : Bytes} {events : List Event} {event : Event} {given : List (Bytes × Bytes)}
  {cursor cursor' : Cursor} {store store' : Store (StateM σ) H} {s s' : σ}

/-! ## Making calls -/

/-- Makes a call. -/
def perform (cursor : Cursor) (store : Store (StateM σ) H) :
    Act → StateM σ (Answer × Cursor × Store (StateM σ) H)
  | .hasNext => do
    let (result, cursor) ← cursor.hasNext store
    return (.told result, cursor, store)
  | .nextEntry => do
    let (result, cursor) ← cursor.nextEntry store
    return (.entry result, cursor, store)
  | .item => do
    let (item?, cursor) ← cursor.item store
    return (.item item?, cursor, store)
  | .removeCurrent => do
    let (result, cursor, store) ← cursor.removeCurrent store
    return (.done result, cursor, store)
  | .put key value => do
    let (result, store) ← store.put key value
    return (.done result, cursor, store)
  | .remove key => do
    let (result, store) ← store.remove key
    return (.done result, cursor, store)
  | .commit batch => do
    let (result, store) ← batch.commit store
    return (.done result, cursor, store)

/-- A cursor of a store, and calls in any order. -/
inductive Walk (content : H → σ → Plain) (start : Bytes) (initial : Store (StateM σ) H)
    (s₀ : σ) : List Event → Cursor → Store (StateM σ) H → σ → Prop where
  | begin {cursor : Cursor} :
      initial.search start = .ok cursor → Walk content start initial s₀ [] cursor initial s₀
  | call {events : List Event} {cursor cursor' : Cursor} {store store' : Store (StateM σ) H}
      {s s' : σ} {act : Act} {answer : Answer} :
      Walk content start initial s₀ events cursor store s →
      cursor.perform store act s = ((answer, cursor', store'), s') →
      Walk content start initial s₀
        (events ++ [cursor.record (store.shows content s) act answer]) cursor' store' s'

/-! ## Asking for more -/

theorem exists_refill (paged : Paged content ready)
    (attended : store.Attended ready cursor.generation s) (pageSize : 1 ≤ cursor.pageSize) :
    ∃ cursor' after, cursor.refill store s = ((.ok (), cursor'), after) ∧
      Refilled (store.shows content s) cursor cursor' ∧
      store.Attended ready cursor.generation after := by
  have hattended := attended
  obtain ⟨live, hlive, hready, hgeneration⟩ := attended
  unfold refill
  cases hbuffer : cursor.buffer with
  | cons pair rest =>
    refine ⟨cursor, s, rfl, .full ?_, hattended⟩
    rw [hbuffer]
    exact List.cons_ne_nil _ _
  | nil =>
    cases hresume : cursor.resumeAt with
    | none => exact ⟨cursor, s, rfl, .dry hbuffer hresume, hattended⟩
    | some next =>
      obtain ⟨page, after, hscan, hpage, hready'⟩ :=
        paged live.handle next cursor.pageSize s hready pageSize
      have hask : store.ask (some cursor.generation) (Backend.scan · next cursor.pageSize) s =
          (.ok page, after) := by
        rw [Store.ask_of_live hlive hgeneration]
        exact hscan
      refine ⟨_, after, state_bind hask, .fetched hbuffer hresume ?_, live, hlive, hready',
        hgeneration⟩
      simpa [Store.shows, hlive] using hpage

theorem Refilled.settled {plain : Plain} (h : Refilled plain cursor cursor') :
    cursor'.buffer ≠ [] ∨ cursor'.resumeAt = none := by
  by_cases hbuffer : cursor'.buffer = []
  · exact .inr (h.resumeAt_eq_none hbuffer)
  · exact .inl hbuffer

theorem refill_of_settled (settled : cursor.buffer ≠ [] ∨ cursor.resumeAt = none) :
    cursor.refill store s = ((.ok (), cursor), s) := by
  unfold refill
  cases hbuffer : cursor.buffer with
  | cons => rfl
  | nil =>
    cases hresume : cursor.resumeAt with
    | none => rfl
    | some next => simp [hbuffer, hresume] at settled

/-- How a call that asks for more is answered, and where it leaves a cursor that has the page it
needed. -/
inductive Replied (refilled : Cursor) : Act → Answer → Cursor → Prop where
  | told : Replied refilled .hasNext (.told (.ok (!refilled.buffer.isEmpty))) refilled
  | exhausted : refilled.buffer = [] →
      Replied refilled .nextEntry (.entry (.error .iteratorExhausted)) refilled
  | entry {entry : Bytes × Bytes} {rest : List (Bytes × Bytes)} :
      refilled.buffer = entry :: rest → Replied refilled .nextEntry (.entry (.ok entry))
        { refilled with buffer := rest, currentKey := some entry.1 }
  | drained : refilled.buffer = [] → Replied refilled .item (.item none) refilled
  | item {entry : Bytes × Bytes} {rest : List (Bytes × Bytes)} :
      refilled.buffer = entry :: rest → Replied refilled .item (.item (some (.ok entry)))
        { refilled with buffer := rest, currentKey := some entry.1 }

/-- An asking for more is answered in one of three ways. -/
theorem Replied.advanced {plain : Plain} {refilled : Cursor} {act : Act} {answer : Answer}
    (h : Replied refilled act answer cursor') (hrefilled : Refilled plain cursor refilled) :
    Advanced plain cursor answer cursor' := by
  cases h with
  | told =>
    cases hbuffer : cursor'.buffer with
    | nil => exact .ended hrefilled hbuffer trivial
    | cons entry rest => exact .more hrefilled (by rw [hbuffer]; exact List.cons_ne_nil _ _)
  | exhausted hbuffer | drained hbuffer => exact .ended hrefilled hbuffer trivial
  | entry hbuffer | item hbuffer => exact .gave hrefilled hbuffer id rfl

section

variable {refilled : Cursor} {after : σ} (current : store.isCurrent cursor.generation = true)
  (hrun : cursor.refill store s = ((.ok (), refilled), after))

include current hrun

theorem hasNext_of_refill :
    cursor.hasNext store s = ((.ok (!refilled.buffer.isEmpty), refilled), after) := by
  unfold hasNext
  rw [if_neg (by simp [isStale, current])]
  exact state_bind hrun

theorem nextEntry_of_refill_nil (hbuffer : refilled.buffer = []) :
    cursor.nextEntry store s = ((.error .iteratorExhausted, refilled), after) := by
  refine (state_bind (hasNext_of_refill current hrun)).trans ?_
  simp only [hbuffer]
  rfl

theorem nextEntry_of_refill_cons {entry : Bytes × Bytes} {rest : List (Bytes × Bytes)}
    (hbuffer : refilled.buffer = entry :: rest) :
    cursor.nextEntry store s =
      ((.ok entry, { refilled with buffer := rest, currentKey := some entry.1 }), after) := by
  refine (state_bind (hasNext_of_refill current hrun)).trans ?_
  simp only [hbuffer]
  rfl

theorem item_of_refill_nil (unfused : cursor.fused = false) (hbuffer : refilled.buffer = []) :
    cursor.item store s = ((none, refilled), after) := by
  unfold item
  rw [if_neg (by simp [unfused])]
  refine (state_bind (hasNext_of_refill current hrun)).trans ?_
  simp only [hbuffer]
  rfl

theorem item_of_refill_cons (unfused : cursor.fused = false)
    (hgeneration : refilled.generation = cursor.generation) {entry : Bytes × Bytes}
    {rest : List (Bytes × Bytes)} (hbuffer : refilled.buffer = entry :: rest) :
    cursor.item store s =
      ((some (.ok entry), { refilled with buffer := rest, currentKey := some entry.1 }),
        after) := by
  -- The entry is in the buffer already, so going on to it fetches nothing.
  have hagain : refilled.refill store after = ((.ok (), refilled), after) :=
    refill_of_settled (.inl (by rw [hbuffer]; exact List.cons_ne_nil _ _))
  have hnext := nextEntry_of_refill_cons (by rwa [hgeneration]) hagain hbuffer
  unfold item
  rw [if_neg (by simp [unfused])]
  refine (state_bind (hasNext_of_refill current hrun)).trans ?_
  simp only [hbuffer]
  exact state_bind hnext

/-- A call that asks for more fetches a page if it needs one, and answers from what it has then. -/
theorem perform_of_refill {plain : Plain} (hrefilled : Refilled plain cursor refilled)
    (unfused : cursor.fused = false) {act : Act} (advances : act.advances = true) :
    ∃ answer cursor', cursor.perform store act s = ((answer, cursor', store), after) ∧
      Replied refilled act answer cursor' := by
  cases act with
  | hasNext => exact ⟨_, _, state_bind (hasNext_of_refill current hrun), .told⟩
  | nextEntry =>
    cases hbuffer : refilled.buffer with
    | nil =>
      exact ⟨_, _, state_bind (nextEntry_of_refill_nil current hrun hbuffer), .exhausted hbuffer⟩
    | cons entry rest =>
      exact ⟨_, _, state_bind (nextEntry_of_refill_cons current hrun hbuffer), .entry hbuffer⟩
  | item =>
    cases hbuffer : refilled.buffer with
    | nil =>
      exact ⟨_, _, state_bind (item_of_refill_nil current hrun unfused hbuffer), .drained hbuffer⟩
    | cons entry rest =>
      exact ⟨_, _, state_bind (item_of_refill_cons current hrun unfused hrefilled.generation
        hbuffer), .item hbuffer⟩
  | removeCurrent | put _ _ | remove _ | commit _ => cases advances

end

theorem exists_advance (paged : Paged content ready)
    (attended : store.Attended ready cursor.generation s) (pageSize : 1 ≤ cursor.pageSize)
    (unfused : cursor.fused = false) {act : Act} (advances : act.advances = true) :
    ∃ answer cursor' after, cursor.perform store act s = ((answer, cursor', store), after) ∧
      Advanced (store.shows content s) cursor answer cursor' ∧
      store.Attended ready cursor.generation after := by
  obtain ⟨refilled, after, hrun, hrefilled, hafter⟩ := exists_refill paged attended pageSize
  obtain ⟨answer, cursor', hperform, hreplied⟩ :=
    perform_of_refill attended.isCurrent hrun hrefilled unfused advances
  exact ⟨answer, cursor', after, hperform, hreplied.advanced hrefilled, hafter⟩

/-! ## Writing -/

theorem exists_removeCurrent (scannable : Scannable content ready)
    (attended : store.Attended ready cursor.generation s) :
    ∃ result key? store' after, cursor.removeCurrent store s =
        ((result, { cursor with currentKey := key? }, store'), after) ∧
      store'.Attended ready cursor.generation after := by
  unfold removeCurrent
  rw [if_neg (by simp [isStale, attended.isCurrent])]
  cases cursor.currentKey with
  | none => exact ⟨.error .noCurrentEntry, cursor.currentKey, store, s, rfl, attended⟩
  | some key =>
    obtain ⟨result, store', after, hrun, hafter⟩ := attended.change (some cursor.generation)
      (fun handle s hready => scannable.delete handle key s hready)
    cases result with
    | ok _ => exact ⟨.ok (), none, store', after, state_bind hrun, hafter⟩
    | error e => exact ⟨.error e, cursor.currentKey, store', after, state_bind hrun, hafter⟩

/-- A call that does not ask for more moves the cursor nowhere. -/
theorem exists_write (scannable : Scannable content ready)
    (attended : store.Attended ready cursor.generation s) {act : Act}
    (writes : act.advances = false) :
    ∃ answer key? store' after,
      cursor.perform store act s = ((answer, { cursor with currentKey := key? }, store'), after) ∧
      answer.pair? = none ∧ ¬ answer.Ends ∧
      store'.Attended ready cursor.generation after := by
  cases act with
  | hasNext | nextEntry | item => cases writes
  | removeCurrent =>
    obtain ⟨result, key?, store', after, hrun, hafter⟩ := exists_removeCurrent scannable attended
    exact ⟨.done result, key?, store', after, state_bind hrun, rfl, id, hafter⟩
  | put key value =>
    obtain ⟨result, store', after, hrun, hafter⟩ := attended.change none
      (fun handle s hready => scannable.put handle key value s hready)
    exact ⟨.done result, cursor.currentKey, store', after, state_bind hrun, rfl, id, hafter⟩
  | remove key =>
    obtain ⟨result, store', after, hrun, hafter⟩ := attended.change none
      (fun handle s hready => scannable.delete handle key s hready)
    exact ⟨.done result, cursor.currentKey, store', after, state_bind hrun, rfl, id, hafter⟩
  | commit batch =>
    obtain ⟨result, store', after, hrun, hafter⟩ := attended.change (some batch.generation)
      (fun handle s hready => scannable.write handle batch.pending s hready)
    have hcommit : batch.commit store s =
        ((result.mapError Batch.commitError, store'), after) := state_bind hrun
    exact ⟨_, cursor.currentKey, store', after, state_bind hcommit, rfl, id, hafter⟩

theorem exists_perform (scannable : Scannable content ready)
    (attended : store.Attended ready cursor.generation s) (pageSize : 1 ≤ cursor.pageSize)
    (unfused : cursor.fused = false) (act : Act) :
    ∃ answer cursor' store' after,
      cursor.perform store act s = ((answer, cursor', store'), after) ∧
      Moved (store.shows content s) cursor act answer cursor' ∧
      store'.Attended ready cursor.generation after := by
  by_cases hact : act.advances = true
  · obtain ⟨answer, cursor', after, hrun, hadvanced, hafter⟩ :=
      exists_advance scannable.paged attended pageSize unfused hact
    exact ⟨answer, cursor', store, after, hrun, .asked hact hadvanced, hafter⟩
  · have hact := Bool.eq_false_iff.2 hact
    obtain ⟨answer, key?, store', after, hrun, hpair, hends, hafter⟩ :=
      exists_write scannable attended hact
    exact ⟨answer, _, store', after, hrun, .wrote hact hpair hends, hafter⟩

theorem Keeps.moved (kept : Keeps content ready start events given cursor store s)
    (scannable : Scannable content ready) {act : Act} {answer : Answer}
    (hrun : cursor.perform store act s = ((answer, cursor', store'), s')) :
    Moved (store.shows content s) cursor act answer cursor' ∧
      store'.Attended ready cursor.generation s' := by
  obtain ⟨_, _, _, _, hrun', hmoved, hafter⟩ :=
    exists_perform scannable kept.attended kept.pageSize kept.unfused act
  cases hrun.symm.trans hrun'
  exact ⟨hmoved, hafter⟩

/-! ## The whole walk -/

variable {initial : Store (StateM σ) H} {s₀ : σ}

theorem returned_snoc (events : List Event) (event : Event) :
    returned (events ++ [event]) = returned events ++ event.answer.pair?.toList := by
  cases hpair : event.answer.pair? <;> simp [returned, List.filterMap_append, hpair]

/-- Any call can be made next. -/
theorem Walk.on (walk : Walk content start initial s₀ events cursor store s) (act : Act) :
    Walk content start initial s₀
      (events ++ [cursor.record (store.shows content s) act (cursor.perform store act s).1.1])
      (cursor.perform store act s).1.2.1 (cursor.perform store act s).1.2.2
      (cursor.perform store act s).2 :=
  walk.call rfl

/-- How a walk came to its last call. -/
theorem Walk.last (walk : Walk content start initial s₀ (events ++ [event]) cursor' store' s') :
    ∃ cursor store s, Walk content start initial s₀ events cursor store s ∧
      cursor.perform store event.act s = ((event.answer, cursor', store'), s') ∧
      event = cursor.record (store.shows content s) event.act event.answer := by
  generalize hall : events ++ [event] = all at walk
  cases walk with
  | begin _ => simp at hall
  | call walk hrun =>
    obtain ⟨rfl, hevent⟩ := List.append_inj' hall rfl
    cases hevent
    exact ⟨_, _, _, walk, hrun, rfl⟩

/-- Each first part of a history is the history of a walk. -/
theorem Walk.of_prefix {front : List Event}
    (walk : Walk content start initial s₀ events cursor store s) (hinitial : front <+: events) :
    ∃ cursor store s, Walk content start initial s₀ front cursor store s := by
  induction walk with
  | begin hsearch =>
    rw [List.prefix_nil.1 hinitial]
    exact ⟨_, _, _, .begin hsearch⟩
  | call walk hrun ih =>
    rcases List.prefix_concat_iff.1 hinitial with rfl | hinitial
    · exact ⟨_, _, _, .call walk hrun⟩
    · exact ih hinitial

section

variable (scannable : Scannable content ready)
  (hready : ∀ live, initial.live = some live → ready live.handle s₀)
  (hsize : 1 ≤ initial.config.cursorBatchSize)

include scannable hready hsize

/-- What a walk keeps. -/
theorem Walk.keeps (walk : Walk content start initial s₀ events cursor store s) :
    Keeps content ready start events (returned events) cursor store s := by
  induction walk with
  | begin hsearch => exact keeps_search hready hsize hsearch
  | call _ hrun ih =>
    obtain ⟨hmoved, hafter⟩ := ih.moved scannable hrun
    rw [returned_snoc]
    exact (ih.move hmoved hafter).1

/-- What the last call of a walk did. -/
theorem Walk.moved (walk : Walk content start initial s₀ (events ++ [event]) cursor' store' s') :
    ∃ cursor store s, Walk content start initial s₀ events cursor store s ∧
      Moved event.seen cursor event.act event.answer cursor' ∧
      store'.Attended ready cursor.generation s' ∧
      event = cursor.record event.seen event.act event.answer := by
  obtain ⟨cursor, store, s, before, hrun, hevent⟩ := walk.last
  obtain ⟨hmoved, hafter⟩ := (before.keeps scannable hready hsize).moved scannable hrun
  refine ⟨cursor, store, s, before, ?_, hafter, ?_⟩
  · rw [hevent]
    exact hmoved
  · rw [hevent]
    rfl

/-- A pair was in the store when the page that brought it was fetched. -/
theorem Walk.fetched (walk : Walk content start initial s₀ (events ++ [event]) cursor store s)
    {pair : Bytes × Bytes} (hpair : event.answer.pair? = some pair) :
    Fetched (events ++ [event]) pair := by
  obtain ⟨_, _, _, before, hmoved, hafter, hevent⟩ := walk.moved scannable hready hsize
  rw [hevent]
  exact ((before.keeps scannable hready hsize).move hmoved hafter).2 pair hpair

/-- After its end was reported a walk has nothing left. -/
theorem Walk.ended (walk : Walk content start initial s₀ events cursor store s)
    (hends : ∃ event ∈ events, event.answer.Ends) : cursor.resumeAt = none := by
  induction walk with
  | begin _ => simp at hends
  | call before hrun ih =>
    have kept := before.keeps scannable hready hsize
    obtain ⟨hmoved, _⟩ := kept.moved scannable hrun
    obtain ⟨event, hmem, hends⟩ := hends
    rcases List.mem_append.1 hmem with hmem | hmem
    · have hresume := ih ⟨event, hmem, hends⟩
      exact (hmoved.stays_ended hresume (kept.dry hresume)).1
    · rw [List.mem_singleton.1 hmem] at hends
      exact hmoved.resumeAt_eq_none hends

/-- A key that was there until the end was reported was returned. -/
theorem Walk.mem_of_ends
    (walk : Walk content start initial s₀ (events ++ [event]) cursor store s)
    (ends : event.answer.Ends) {key : Bytes} (hkey : start ≤ key)
    (hseen : ∀ earlier ∈ events ++ [event], earlier.seen key ≠ none) :
    key ∈ (returned (events ++ [event])).map (·.1) := by
  have kept := walk.keeps scannable hready hsize
  have hresume := walk.ended scannable hready hsize ⟨event, by simp, ends⟩
  have hmem := kept.passed key hkey (by simp [hresume]) hseen
  rwa [kept.dry hresume, List.append_nil] at hmem

end

/-- Asking whether there is more changes nothing that can be noticed: asking again is answered the
same way, and the walk goes on as if it had not been asked. -/
theorem exists_hasNext_again (paged : Paged content ready)
    (attended : store.Attended ready cursor.generation s) (pageSize : 1 ≤ cursor.pageSize)
    (unfused : cursor.fused = false) :
    ∃ more cursor' s', cursor.hasNext store s = ((.ok more, cursor'), s') ∧
      cursor'.hasNext store s' = ((.ok more, cursor'), s') ∧
      cursor'.nextEntry store s' = cursor.nextEntry store s ∧
      cursor'.item store s' = cursor.item store s ∧
      ((cursor.nextEntry store s).1.1 = .error .iteratorExhausted ↔ more = false) := by
  obtain ⟨cursor', s', hrefill, hrefilled, hafter⟩ := exists_refill paged attended pageSize
  rw [← hrefilled.generation] at hafter
  have hrun := hasNext_of_refill attended.isCurrent hrefill
  have hagain : cursor'.hasNext store s' = ((.ok (!cursor'.buffer.isEmpty), cursor'), s') :=
    hasNext_of_refill hafter.isCurrent (refill_of_settled hrefilled.settled)
  refine ⟨_, cursor', s', hrun, hagain, ?_, ?_, ?_⟩
  · unfold nextEntry
    rw [state_bind hagain, state_bind hrun]
  · unfold item
    rw [hrefilled.fused, unfused, if_neg Bool.false_ne_true, if_neg Bool.false_ne_true,
      state_bind hagain, state_bind hrun]
  · cases hbuffer : cursor'.buffer with
    | nil =>
      rw [nextEntry_of_refill_nil attended.isCurrent hrefill hbuffer]
      exact ⟨fun _ => rfl, fun _ => rfl⟩
    | cons entry rest =>
      rw [nextEntry_of_refill_cons attended.isCurrent hrefill hbuffer]
      exact ⟨nofun, nofun⟩

/-! ## What can be relied on -/

/-- What the history of a walk shows, and the cursor after it. -/
structure Faithful (start : Bytes) (events : List Event) (cursor : Cursor)
    (store : Store (StateM σ) H) (s : σ) : Prop where
  ascending : (returned events).Pairwise (·.1 < ·.1)
  from_start : ∀ pair ∈ returned events, start ≤ pair.1
  /-- Each pair was in the store when the page that brought it was fetched. -/
  fetched : ∀ front event pair, front ++ [event] <+: events → event.answer.pair? = some pair →
    Fetched (front ++ [event]) pair
  /-- A key that was there from the beginning until the end was reported is returned once. -/
  complete : ∀ front event key, front ++ [event] <+: events → event.answer.Ends → start ≤ key →
    (∀ earlier ∈ front ++ [event], earlier.seen key ≠ none) →
    ((returned events).map (·.1)).count key = 1
  /-- After the end was reported nothing is returned, and the end is reported again. -/
  ended : ∀ front event later, front ++ [event] <+: events → later ∈ front → later.answer.Ends →
    event.answer.pair? = none ∧ (event.act.advances = true → event.answer.Ends)
  /-- Asking whether there is more is always answered, and changes nothing that can be noticed. -/
  asked : ∃ more cursor' s', cursor.hasNext store s = ((.ok more, cursor'), s') ∧
    cursor'.hasNext store s' = ((.ok more, cursor'), s') ∧
    cursor'.nextEntry store s' = cursor.nextEntry store s ∧
    cursor'.item store s' = cursor.item store s ∧
    ((cursor.nextEntry store s).1.1 = .error .iteratorExhausted ↔ more = false)

/-- A cursor can be relied on while its store is written to: it returns ascending keys that were
there when their page was fetched, leaves out none that was there all the time, and once it is at
its end stays there. -/
theorem walk_faithful (scannable : Scannable content ready)
    (hready : ∀ live, initial.live = some live → ready live.handle s₀)
    (hsize : 1 ≤ initial.config.cursorBatchSize)
    (walk : Walk content start initial s₀ events cursor store s) :
    Faithful start events cursor store s := by
  have kept := walk.keeps scannable hready hsize
  have hascending := (List.pairwise_append.1 kept.ascending).1
  refine {
    ascending := hascending
    from_start := fun pair hmem => kept.from_start pair (List.mem_append_left _ hmem)
    fetched := ?_
    complete := ?_
    ended := ?_
    asked := exists_hasNext_again scannable.paged kept.attended kept.pageSize kept.unfused }
  · intro front event pair hinitial hpair
    obtain ⟨_, _, _, walk⟩ := walk.of_prefix hinitial
    exact walk.fetched scannable hready hsize hpair
  · intro front event key hinitial hends hkey hseen
    obtain ⟨rest, rfl⟩ := hinitial
    obtain ⟨_, _, _, front_walk⟩ := walk.of_prefix (List.prefix_append _ _)
    have hmem := front_walk.mem_of_ends scannable hready hsize hends hkey hseen
    -- The keys ascend, so one that was returned was returned once.
    have hnodup : ((returned (front ++ [event] ++ rest)).map (·.1)).Nodup :=
      List.pairwise_map.2 (hascending.imp fun hlt => Std.ne_of_lt hlt)
    refine List.count_eq_one_of_mem hnodup ?_
    unfold returned at hmem ⊢
    rw [List.filterMap_append, List.map_append]
    exact List.mem_append_left _ hmem
  · intro front event earlier hinitial hmem hends
    obtain ⟨_, _, _, walk⟩ := walk.of_prefix hinitial
    obtain ⟨_, _, _, before, hmoved, _⟩ := walk.moved scannable hready hsize
    have hresume := before.ended scannable hready hsize ⟨earlier, hmem, hends⟩
    have hbuffer := (before.keeps scannable hready hsize).dry hresume
    exact (hmoved.stays_ended hresume hbuffer).2.2

/-- A world whose engine in memory holds three keys. -/
def trialWorld : World where
  engines := Dictionary.empty.insert "m"
    (.memory { content := ((KeyMap.empty.insert [1] [10]).insert [3] [30]).insert [5] [50] })

/-- A store of that engine whose cursors fetch one entry at a time. -/
def trialStore : Store (StateM World) WorldHandle where
  config := { cursorBatchSize := 1 }
  selector := World.defaultSelector
  live := some ⟨.memory "m" .portable, .portable⟩

/-- A walk in pages of one entry: the key that was returned is removed, the next one too before its
page is fetched, and another one comes in before the end is reported. -/
theorem walk_faithful_among_writes :
    ∃ events cursor store world,
      Walk World.memoryContent [1] trialStore trialWorld events cursor store world ∧
      events.map (·.answer) = [.entry (.ok ([1], [10])), .done (.ok ()), .done (.ok ()),
        .done (.ok ()), .told (.ok true), .item (some (.ok ([4], [40]))), .entry (.ok ([5], [50])),
        .told (.ok false), .done (.ok ()), .entry (.error .iteratorExhausted)] ∧
      Faithful [1] events cursor store world := by
  have walk : Walk World.memoryContent [1] trialStore trialWorld [] _ _ _ := .begin rfl
  have walk := (walk.on .nextEntry).on .removeCurrent
  have walk := (walk.on (.remove [3])).on (.put [4] [40])
  have walk := ((walk.on .hasNext).on .item).on .nextEntry
  have walk := ((walk.on .hasNext).on (.put [6] [60])).on .nextEntry
  refine ⟨_, _, _, _, walk, rfl, walk_faithful World.scannable_memory ?_ (by decide) walk⟩
  rintro _ ⟨⟩
  exact ⟨"m", .portable, _, rfl, rfl⟩

end Cursor

end OrderedStore
