import OrderedStore.Proofs.KeyMap
import OrderedStore.Proofs.Store.Contract
import OrderedStore.Store.Batch
import OrderedStore.Store.Cursor

/-!
# Pages of a walk

A cursor keeps what was fetched and the key to go on from, and that is enough: what was returned and
what is still to be returned make up an ascending list, and nothing that was there all the time is
left out of it.

Main definitions:

- `Cursor.Act`, `Cursor.Answer`, `Cursor.Event`: calls and their history.
- `Cursor.Moved`: what a call does to a cursor.
- `Cursor.Keeps`: what a cursor has to do with the history of the calls.

Main statement: `Cursor.Keeps.move`.
-/

namespace OrderedStore

/-! ## What a store shows -/

namespace Store

variable {σ H : Type}

/-- What the live handle of a store holds. -/
def shows (store : Store (StateM σ) H) (content : H → σ → Plain) (s : σ) : Plain :=
  match store.live with
  | some live => content live.handle s
  | none => Plain.empty

/-- A store whose handle is live in a generation, and ready. -/
def Attended (store : Store (StateM σ) H) (ready : H → σ → Prop) (generation : Nat) (s : σ) :
    Prop :=
  ∃ live, store.live = some live ∧ ready live.handle s ∧ store.generation = generation

variable {content : H → σ → Plain} {ready : H → σ → Prop} {generation : Nat}
  {store : Store (StateM σ) H} {s : σ}

theorem Attended.isCurrent (attended : store.Attended ready generation s) :
    store.isCurrent generation = true := by
  obtain ⟨live, hlive, _, rfl⟩ := attended
  simp [Store.isCurrent, hlive]

theorem ask_of_live {α : Type} {live : Live H} (hlive : store.live = some live)
    (hgeneration : store.generation = generation) (question : H → StateM σ (Except Error α)) :
    store.ask (some generation) question = question live.handle := by
  simp [Store.ask, Store.current, hlive, hgeneration]

/-- A call that keeps handles ready leaves the store attended, even if it finds none to use. -/
theorem Attended.change (attended : store.Attended ready generation s) (caller? : Option Nat)
    {action : H → StateM σ (Except Error Unit × H)}
    (kept : ∀ handle (s : σ), ready handle s → ∃ result handle' after,
      action handle s = ((result, handle'), after) ∧ ready handle' after) :
    ∃ result store' after, store.change caller? action s = ((result, store'), after) ∧
      store'.Attended ready generation after := by
  obtain ⟨live, hlive, hready, hgeneration⟩ := attended
  unfold Store.change
  cases hcurrent : store.current caller? with
  | error e => exact ⟨_, _, s, rfl, live, hlive, hready, hgeneration⟩
  | ok used =>
    have hused : used = live := by
      unfold current at hcurrent
      rw [hlive] at hcurrent
      cases caller? with
      | none => exact (Except.ok.inj hcurrent).symm
      | some caller =>
        simp only at hcurrent
        split at hcurrent
        · exact (Except.ok.inj hcurrent).symm
        · cases hcurrent
    subst hused
    obtain ⟨result, handle, after, hrun, hready'⟩ := kept used.handle s hready
    exact ⟨_, _, after, state_bind hrun, _, rfl, hready', hgeneration⟩

end Store

namespace Cursor

variable {σ H : Type}

/-! ## Calls and their history -/

/-- A call on a cursor, or a write to its store. -/
inductive Act where
  | hasNext
  | nextEntry
  | item
  | removeCurrent
  | put (key value : Bytes)
  | remove (key : Bytes)
  | commit (batch : Batch)

/-- What a call is answered with. -/
inductive Answer where
  | told (result : Except Error Bool)
  | entry (result : Except Error (Bytes × Bytes))
  | item (item? : Option (Except Error (Bytes × Bytes)))
  | done (result : Except Error Unit)

/-- Whether a call asks for more of the walk. -/
def Act.advances : Act → Bool
  | .hasNext | .nextEntry | .item => true
  | _ => false

/-- The pair that an answer returns. -/
def Answer.pair? : Answer → Option (Bytes × Bytes)
  | .entry (.ok pair) | .item (some (.ok pair)) => some pair
  | _ => none

/-- An answer that reports the end of the walk. -/
def Answer.Ends : Answer → Prop
  | .told (.ok false) | .entry (.error .iteratorExhausted) | .item none => True
  | _ => False

theorem Answer.Ends.pair?_eq_none {answer : Answer} (h : answer.Ends) : answer.pair? = none := by
  unfold Answer.Ends at h
  split at h
  · rfl
  · rfl
  · rfl
  · exact h.elim

/-- A call that was made. -/
structure Event where
  act : Act
  answer : Answer
  /-- What the store showed when the call was made. -/
  seen : Plain
  /-- Whether the call fetched a page. -/
  fetches : Bool

/-- Whether a call will fetch a page. -/
def fetchesFor (cursor : Cursor) (act : Act) : Bool :=
  act.advances && cursor.buffer.isEmpty && cursor.resumeAt.isSome

/-- What a history tells of a call. -/
def record (cursor : Cursor) (seen : Plain) (act : Act) (answer : Answer) : Event :=
  { act, answer, seen, fetches := cursor.fetchesFor act }

/-- The pairs that were returned. -/
def returned (events : List Event) : List (Bytes × Bytes) :=
  events.filterMap (·.answer.pair?)

/-! ## One page -/

variable {content : H → σ → Plain} {ready : H → σ → Prop} {start : Bytes}
  {events : List Event} {event : Event} {given : List (Bytes × Bytes)} {cursor cursor' : Cursor}
  {store store' : Store (StateM σ) H} {s s' : σ}

/-- What a cursor may be after a page was fetched, if one was needed. -/
inductive Refilled (plain : Plain) (cursor : Cursor) : Cursor → Prop where
  | full : cursor.buffer ≠ [] → Refilled plain cursor cursor
  | dry : cursor.buffer = [] → cursor.resumeAt = none → Refilled plain cursor cursor
  | fetched {next : Bytes} {page : List (Bytes × Bytes)} :
      cursor.buffer = [] → cursor.resumeAt = some next → plain.Page next page →
      Refilled plain cursor
        { cursor with buffer := page, resumeAt := page.getLast?.map fun entry => entry.1.successor }

theorem Refilled.generation {plain : Plain} (h : Refilled plain cursor cursor') :
    cursor'.generation = cursor.generation := by
  cases h <;> rfl

theorem Refilled.pageSize {plain : Plain} (h : Refilled plain cursor cursor') :
    cursor'.pageSize = cursor.pageSize := by
  cases h <;> rfl

theorem Refilled.fused {plain : Plain} (h : Refilled plain cursor cursor') :
    cursor'.fused = cursor.fused := by
  cases h <;> rfl

/-! ## What a walk keeps -/

/-- A pair was in the store when the last page of a history was fetched. -/
def Fetched (events : List Event) (pair : Bytes × Bytes) : Prop :=
  ∃ before refill between, events = before ++ refill :: between ∧ refill.fetches = true ∧
    (∀ event ∈ between, event.fetches = false) ∧ refill.seen pair.1 = some pair.2

theorem Fetched.snoc {pair : Bytes × Bytes} (h : Fetched events pair)
    (fetches : event.fetches = false) : Fetched (events ++ [event]) pair := by
  obtain ⟨before, refill, between, rfl, hrefill, hbetween, hseen⟩ := h
  refine ⟨before, refill, between ++ [event], by simp, hrefill, ?_, hseen⟩
  intro later hmem
  rcases List.mem_append.1 hmem with hmem | hmem
  · exact hbetween later hmem
  · rw [List.mem_singleton.1 hmem, fetches]

theorem fetched_last {pair : Bytes × Bytes} (fetches : event.fetches = true)
    (hseen : event.seen pair.1 = some pair.2) : Fetched (events ++ [event]) pair :=
  ⟨events, event, [], rfl, fetches, by simp, hseen⟩

/-- What the pairs given so far and the state of a cursor have to do with the history: pairs given
and pairs in the buffer make up an ascending list, which lacks no key up to the one to go on from
that was in the store all the time. -/
structure Keeps (content : H → σ → Plain) (ready : H → σ → Prop) (start : Bytes)
    (events : List Event) (given : List (Bytes × Bytes)) (cursor : Cursor)
    (store : Store (StateM σ) H) (s : σ) : Prop where
  attended : store.Attended ready cursor.generation s
  pageSize : 1 ≤ cursor.pageSize
  unfused : cursor.fused = false
  ascending : (given ++ cursor.buffer).Pairwise (·.1 < ·.1)
  from_start : ∀ pair ∈ given ++ cursor.buffer, start ≤ pair.1
  below : ∀ next, cursor.resumeAt = some next →
    start ≤ next ∧ ∀ pair ∈ given ++ cursor.buffer, pair.1 < next
  passed : ∀ key, start ≤ key → (∀ next, cursor.resumeAt = some next → key < next) →
    (∀ event ∈ events, event.seen key ≠ none) → key ∈ (given ++ cursor.buffer).map (·.1)
  dry : cursor.resumeAt = none → cursor.buffer = []
  origin : ∀ pair ∈ cursor.buffer, Fetched events pair

/-- A new cursor keeps what a walk keeps. -/
theorem keeps_search (hready : ∀ live, store.live = some live → ready live.handle s)
    (hsize : 1 ≤ store.config.cursorBatchSize) (hsearch : store.search start = .ok cursor) :
    Keeps content ready start [] [] cursor store s := by
  cases hlive : store.live with
  | none => simp [Store.search, Store.liveGeneration, hlive, Except.map] at hsearch
  | some live =>
    simp only [Store.search, Store.liveGeneration, hlive, Except.map, Except.ok.injEq] at hsearch
    subst hsearch
    refine {
      attended := ⟨live, hlive, hready live hlive, rfl⟩
      pageSize := hsize
      unfused := rfl
      ascending := List.Pairwise.nil
      from_start := by simp
      below := ?_
      passed := ?_
      dry := fun _ => rfl
      origin := by simp }
    · rintro next ⟨⟩
      exact ⟨Std.le_refl _, by simp⟩
    · intro key hkey hnext
      exact absurd (hnext start rfl) (List.not_lt.2 hkey)

/-- The history goes on without a page. -/
theorem Keeps.snoc (h : Keeps content ready start events given cursor store s)
    (fetches : event.fetches = false)
    (attended : store'.Attended ready cursor.generation s') :
    Keeps content ready start (events ++ [event]) given cursor store' s' where
  attended := attended
  pageSize := h.pageSize
  unfused := h.unfused
  ascending := h.ascending
  from_start := h.from_start
  below := h.below
  passed key hstart hnext hseen :=
    h.passed key hstart hnext fun event hmem => hseen event (List.mem_append_left _ hmem)
  dry := h.dry
  origin pair hmem := (h.origin pair hmem).snoc fetches

/-- The history goes on with a page. -/
theorem Keeps.fetch (h : Keeps content ready start events given cursor store s) {next : Bytes}
    {page : List (Bytes × Bytes)} (hbuffer : cursor.buffer = [])
    (hresume : cursor.resumeAt = some next) (hpage : event.seen.Page next page)
    (fetches : event.fetches = true) (attended : store'.Attended ready cursor.generation s') :
    Keeps content ready start (events ++ [event]) given
      { cursor with buffer := page, resumeAt := page.getLast?.map fun entry => entry.1.successor }
      store' s' := by
  obtain ⟨hstart, hbelow⟩ := h.below next hresume
  have hascending := h.ascending
  have hfrom := h.from_start
  have hpassed := h.passed
  rw [hbuffer, List.append_nil] at hascending hbelow hfrom hpassed
  have hfirst : ∀ pair ∈ page, next ≤ pair.1 := fun pair hmem => (hpage.of_mem hmem).1
  refine {
    attended
    pageSize := h.pageSize
    unfused := h.unfused
    ascending := ?_
    from_start := ?_
    below := ?_
    passed := ?_
    dry := ?_
    origin := fun pair hmem => fetched_last fetches (hpage.of_mem hmem).2 }
  · refine List.pairwise_append.2 ⟨hascending, hpage.ascending, ?_⟩
    intro old hold new hnew
    exact Std.lt_of_lt_of_le (hbelow old hold) (hfirst new hnew)
  · intro pair hmem
    rcases List.mem_append.1 hmem with hold | hnew
    · exact hfrom pair hold
    · exact Std.le_trans hstart (hfirst pair hnew)
  · intro later hlater
    obtain ⟨last, hlast, rfl⟩ := Option.map_eq_some_iff.1 hlater
    have hlt := Bytes.lt_successor last.1
    have hnext := hfirst last (List.mem_of_getLast? hlast)
    refine ⟨Std.le_trans hstart (Std.le_trans hnext (Std.le_of_lt hlt)), ?_⟩
    intro pair hmem
    rcases List.mem_append.1 hmem with hold | hnew
    · exact Std.lt_trans (Std.lt_of_lt_of_le (hbelow pair hold) hnext) hlt
    · exact Std.lt_of_le_of_lt (KeyMap.le_of_getLast? hpage.ascending hnew hlast) hlt
  · intro key hkey hnot hseen
    rw [List.map_append]
    -- A key before the page was passed before; one behind it would have been on it.
    by_cases hlt : key < next
    · refine List.mem_append_left _ (hpassed key hkey ?_ ?_)
      · intro other hother
        rw [hresume] at hother
        rwa [← Option.some.inj hother]
      · exact fun event hmem => hseen event (List.mem_append_left _ hmem)
    · have hle := List.not_lt.1 hlt
      obtain ⟨value, hvalue⟩ := Option.ne_none_iff_exists'.1 (hseen event (by simp))
      cases hlast : page.getLast? with
      | none =>
        rw [List.getLast?_eq_none_iff.1 hlast] at hpage
        rw [hpage.eq_none_of_nil hle] at hvalue
        cases hvalue
      | some last =>
        have hupper : key ≤ last.1 := by
          have hsuccessor := hnot last.1.successor (by rw [hlast]; rfl)
          exact List.not_lt.1 fun hbehind =>
            absurd hsuccessor (List.not_lt.2 (Bytes.successor_le_iff.2 hbehind))
        exact List.mem_append_right _
          (List.mem_map_of_mem (hpage.mem hlast hle hupper hvalue))
  · intro hnone
    have hlast : page.getLast? = none := by simpa using hnone
    exact List.getLast?_eq_none_iff.1 hlast

/-- A page is fetched if one is needed. -/
theorem Keeps.refill (h : Keeps content ready start events given cursor store s)
    (refilled : Refilled event.seen cursor cursor')
    (fetches : event.fetches = (cursor.buffer.isEmpty && cursor.resumeAt.isSome))
    (attended : store'.Attended ready cursor.generation s') :
    Keeps content ready start (events ++ [event]) given cursor' store' s' := by
  cases refilled with
  | full hbuffer => exact h.snoc (by simp [fetches, hbuffer]) attended
  | dry hbuffer hresume => exact h.snoc (by simp [fetches, hresume]) attended
  | fetched hbuffer hresume hpage =>
    exact h.fetch hbuffer hresume hpage (by simp [fetches, hbuffer, hresume]) attended

/-- The first pair of the buffer is given. -/
theorem Keeps.give (h : Keeps content ready start events given cursor store s)
    {entry : Bytes × Bytes} {rest : List (Bytes × Bytes)}
    (hbuffer : cursor.buffer = entry :: rest) :
    Keeps content ready start events (given ++ [entry])
      { cursor with buffer := rest, currentKey := some entry.1 } store s := by
  -- A pair goes over from the buffer to those given; together they stay the same list.
  have hmove : given ++ [entry] ++ rest = given ++ cursor.buffer := by
    rw [hbuffer, List.append_assoc, List.singleton_append]
  refine {
    attended := h.attended
    pageSize := h.pageSize
    unfused := h.unfused
    ascending := ?_
    from_start := ?_
    below := ?_
    passed := ?_
    dry := ?_
    origin := ?_ }
  · rw [hmove]
    exact h.ascending
  · rw [hmove]
    exact h.from_start
  · rw [hmove]
    exact h.below
  · rw [hmove]
    exact h.passed
  · intro hresume
    rw [h.dry hresume] at hbuffer
    cases hbuffer
  · intro pair hmem
    exact h.origin pair (by rw [hbuffer]; exact List.mem_cons_of_mem _ hmem)

/-! ## One call -/

/-- What an asking for more may be answered with, and what the cursor is then. -/
inductive Advanced (plain : Plain) (cursor : Cursor) : Answer → Cursor → Prop where
  | more {refilled : Cursor} :
      Refilled plain cursor refilled → refilled.buffer ≠ [] →
      Advanced plain cursor (.told (.ok true)) refilled
  | ended {refilled : Cursor} {answer : Answer} :
      Refilled plain cursor refilled → refilled.buffer = [] → answer.Ends →
      Advanced plain cursor answer refilled
  | gave {refilled : Cursor} {answer : Answer} {entry : Bytes × Bytes}
      {rest : List (Bytes × Bytes)} :
      Refilled plain cursor refilled → refilled.buffer = entry :: rest → ¬ answer.Ends →
      answer.pair? = some entry →
      Advanced plain cursor answer { refilled with buffer := rest, currentKey := some entry.1 }

/-- What a call does to a cursor: only one that asks for more moves it on. -/
inductive Moved (plain : Plain) (cursor : Cursor) : Act → Answer → Cursor → Prop where
  | asked {act : Act} {answer : Answer} {cursor' : Cursor} :
      act.advances = true → Advanced plain cursor answer cursor' →
      Moved plain cursor act answer cursor'
  | wrote {act : Act} {answer : Answer} {key? : Option Bytes} :
      act.advances = false → answer.pair? = none → ¬ answer.Ends →
      Moved plain cursor act answer { cursor with currentKey := key? }

theorem Refilled.resumeAt_eq_none {plain : Plain} (h : Refilled plain cursor cursor')
    (hbuffer : cursor'.buffer = []) : cursor'.resumeAt = none := by
  cases h with
  | full hne => exact absurd hbuffer hne
  | dry _ hresume => exact hresume
  | @fetched _ page _ _ _ =>
    have hpage : page = [] := hbuffer
    simp [hpage]

/-- A walk that reports its end has no key to go on from. -/
theorem Moved.resumeAt_eq_none {plain : Plain} {act : Act} {answer : Answer}
    (h : Moved plain cursor act answer cursor') (ends : answer.Ends) : cursor'.resumeAt = none := by
  cases h with
  | wrote _ _ hends => exact absurd ends hends
  | asked _ advanced =>
    cases advanced with
    | more _ _ => exact ends.elim
    | ended hrefilled hbuffer _ => exact hrefilled.resumeAt_eq_none hbuffer
    | gave _ _ hends _ => exact absurd ends hends

/-- A walk without a key to go on from stays so, and reports its end each time it is asked. -/
theorem Moved.stays_ended {plain : Plain} {act : Act} {answer : Answer}
    (h : Moved plain cursor act answer cursor') (hresume : cursor.resumeAt = none)
    (hbuffer : cursor.buffer = []) :
    cursor'.resumeAt = none ∧ cursor'.buffer = [] ∧ answer.pair? = none ∧
      (act.advances = true → answer.Ends) := by
  -- With no key to go on from, no page is fetched.
  have settled : ∀ refilled, Refilled plain cursor refilled → refilled = cursor := by
    intro refilled hrefilled
    cases hrefilled with
    | full => rfl
    | dry => rfl
    | fetched _ hsome _ => rw [hresume] at hsome; cases hsome
  cases h with
  | wrote hact hpair _ => exact ⟨hresume, hbuffer, hpair, fun hadvances => by simp_all⟩
  | asked _ advanced =>
    cases advanced with
    | more hrefilled hne =>
      rw [settled _ hrefilled] at hne
      exact absurd hbuffer hne
    | ended hrefilled _ hends =>
      rw [settled _ hrefilled]
      exact ⟨hresume, hbuffer, hends.pair?_eq_none, fun _ => hends⟩
    | gave hrefilled hcons _ _ =>
      rw [settled _ hrefilled, hbuffer] at hcons
      cases hcons

/-- A call keeps what a walk keeps, and a pair it returns was in the store when the last page was
fetched. -/
theorem Keeps.move (h : Keeps content ready start events given cursor store s) {seen : Plain}
    {act : Act} {answer : Answer} (moved : Moved seen cursor act answer cursor')
    (attended : store'.Attended ready cursor.generation s') :
    Keeps content ready start (events ++ [cursor.record seen act answer])
        (given ++ answer.pair?.toList) cursor' store' s' ∧
      ∀ pair, answer.pair? = some pair →
        Fetched (events ++ [cursor.record seen act answer]) pair := by
  cases moved with
  | wrote hact hpair _ =>
    rw [hpair, Option.toList_none, List.append_nil]
    have hfetches : (cursor.record seen act answer).fetches = false := by
      simp [record, fetchesFor, hact]
    exact ⟨{ h.snoc hfetches attended with }, by simp⟩
  | asked hact advanced =>
    have refill : ∀ refilled, Refilled seen cursor refilled →
        Keeps content ready start (events ++ [cursor.record seen act answer]) given refilled
          store' s' :=
      fun refilled hrefilled =>
        h.refill hrefilled (by simp [record, fetchesFor, hact]) attended
    cases advanced with
    | more hrefilled _ =>
      exact ⟨by simpa [Answer.pair?] using refill _ hrefilled, by simp [Answer.pair?]⟩
    | ended hrefilled _ hends =>
      rw [hends.pair?_eq_none, Option.toList_none, List.append_nil]
      exact ⟨refill _ hrefilled, by simp⟩
    | gave hrefilled hbuffer _ hpair =>
      rw [hpair]
      refine ⟨(refill _ hrefilled).give hbuffer, ?_⟩
      rintro _ ⟨⟩
      exact (refill _ hrefilled).origin _ (by rw [hbuffer]; exact List.mem_cons_self)

end Cursor

end OrderedStore
