import OrderedStore.Proofs.Store.Contract
import OrderedStore.Store.Cursor

/-!
# Reading a store on a host

A store on a host in memory shows a map when its point reads and its scans do. Then a cursor walks
the pairs of the map in ascending order, in pages of any size.

Main definitions:

- `Store.items`: a walk of a cursor from its beginning.
- `Store.Reads`: a store that shows a map.
- `Cursor.Ahead`: the pairs that a cursor has yet to give.

Main statements: `Cursor.run_take`, `Store.Reads.items`.
-/

namespace OrderedStore

/-! ## Lists of pairs -/

namespace Plain

variable {plain : Plain} {start : Bytes} {page rest pairs pairs' : List (Bytes × Bytes)}

/-- A map has one list from a key on. -/
theorem Lists.unique (h : plain.Lists start pairs) (h' : plain.Lists start pairs') :
    pairs = pairs' := by
  refine KeyMap.eq_of_ascending_of_mem_iff h.ascending h'.ascending ?_
  rintro ⟨key, value⟩
  rw [h.mem_iff, h'.mem_iff]

/-- What follows a part of a list is the list from behind the last key of the part on. -/
theorem Lists.behind (h : plain.Lists start (page ++ rest)) {last : Bytes × Bytes}
    (hlast : page.getLast? = some last) : plain.Lists last.1.successor rest := by
  obtain ⟨hpage, hrest, hbetween⟩ := List.pairwise_append.1 h.ascending
  refine ⟨hrest, fun key value => ?_⟩
  rw [Bytes.successor_le_iff]
  constructor
  · intro hmem
    exact ⟨hbetween last (List.mem_of_getLast? hlast) _ hmem,
      ((h.mem_iff key value).1 (List.mem_append_right _ hmem)).2⟩
  · rintro ⟨hlt, hvalue⟩
    have hstart := ((h.mem_iff last.1 last.2).1
      (List.mem_append_left _ (List.mem_of_getLast? hlast))).1
    rcases List.mem_append.1
      ((h.mem_iff key value).2 ⟨Std.le_trans hstart (Std.le_of_lt hlt), hvalue⟩) with hmem | hmem
    · exact absurd hlt (List.not_lt.2 (KeyMap.le_of_getLast? hpage hmem hlast))
    · exact hmem

end Plain

/-! ## Walks -/

/-- What follows a script starts in the state that the script leaves. -/
theorem Script.run_bind_of {α β : Type} {script : Script α} {f : α → Script β} {host after : Host}
    {value : α} (h : script.run host = (value, after)) :
    (script >>= f).run host = (f value).run after := by
  rw [run_bind, h]

/-- The items of a walk from a key on, at most `limit` of them. -/
def Store.items {m : Type → Type} {H : Type} [Monad m] [Backend m H] (store : Store m H)
    (start : Bytes) (limit : Nat) : m (Except Error (List (Except Error (Bytes × Bytes)))) :=
  match store.search start with
  | .error e => return .error e
  | .ok cursor => do
    let (items, _) ← cursor.take store limit
    return .ok items

variable {store store' : Store Script Portable} {host after : Host} {plain : Plain}
  {pairs : List (Bytes × Bytes)} {start : Bytes}

/-- A store whose reads give what a map holds, and change nothing. -/
structure Store.Reads (store : Store Script Portable) (host : Host) (plain : Plain) : Prop where
  get : ∀ key, (store.get key).run host = (.ok (plain key), host)
  live : ∃ live, store.live = some live ∧ ∀ start limit, ∃ page,
    (Backend.scan live.handle start limit : Script _).run host = (.ok page, host) ∧
      plain.Page start page

namespace Cursor

variable {cursor : Cursor}

/-- A cursor of the handle in use, and the pairs of a map that it has yet to give. -/
structure Ahead (cursor : Cursor) (store : Store Script Portable) (plain : Plain)
    (pairs : List (Bytes × Bytes)) : Prop where
  generation : cursor.generation = store.generation
  unfused : cursor.fused = false
  pairs : ∃ behind, pairs = cursor.buffer ++ behind ∧
    match cursor.resumeAt with
    | none => behind = []
    | some next => plain.Lists next behind

theorem Ahead.isStale (ahead : cursor.Ahead store plain pairs) (reads : store.Reads host plain) :
    cursor.isStale store = false := by
  obtain ⟨live, hlive, _⟩ := reads.live
  simp [Cursor.isStale, Store.isCurrent, hlive, ahead.generation]

theorem run_refill (reads : store.Reads host plain) (ahead : cursor.Ahead store plain pairs) :
    ∃ refilled, (cursor.refill store).run host = ((.ok (), refilled), host) ∧
      refilled.Ahead store plain pairs ∧ (refilled.buffer = [] → pairs = []) := by
  obtain ⟨behind, hpairs, hbehind⟩ := ahead.pairs
  unfold refill
  cases hbuffer : cursor.buffer with
  | cons pair rest =>
    refine ⟨cursor, rfl, ahead, fun hnil => ?_⟩
    rw [hbuffer] at hnil
    cases hnil
  | nil =>
    rw [hbuffer, List.nil_append] at hpairs
    subst hpairs
    cases hresume : cursor.resumeAt with
    | none =>
      rw [hresume] at hbehind
      exact ⟨cursor, rfl, ahead, fun _ => hbehind⟩
    | some next =>
      rw [hresume] at hbehind
      obtain ⟨live, hlive, hscan⟩ := reads.live
      obtain ⟨page, hrun, rest, hlists, hempty⟩ := hscan next cursor.pageSize
      have hask : store.ask (some cursor.generation) (Backend.scan · next cursor.pageSize) =
          Backend.scan live.handle next cursor.pageSize := by
        simp [Store.ask, Store.current, hlive, ahead.generation]
      obtain rfl := hlists.unique hbehind
      refine ⟨{ cursor with
          buffer := page, resumeAt := page.getLast?.map fun entry => entry.1.successor },
        ?_, ⟨ahead.generation, ahead.unfused, rest, rfl, ?_⟩, ?_⟩
      · exact Script.run_bind_of (hask ▸ hrun)
      · -- The walk goes on behind the page, unless the page is empty.
        cases hlast : page.getLast? with
        | none => exact hempty (List.getLast?_eq_none_iff.1 hlast)
        | some last => exact hlists.behind hlast
      · intro hnil
        rw [hempty hnil, List.append_nil]
        exact hnil

theorem run_hasNext (reads : store.Reads host plain) (ahead : cursor.Ahead store plain pairs) :
    ∃ refilled, (cursor.hasNext store).run host =
        ((.ok (!refilled.buffer.isEmpty), refilled), host) ∧
      refilled.Ahead store plain pairs ∧ (refilled.buffer = [] → pairs = []) := by
  obtain ⟨refilled, hrun, hahead, hempty⟩ := run_refill reads ahead
  refine ⟨refilled, ?_, hahead, hempty⟩
  unfold hasNext
  rw [if_neg (by simp [ahead.isStale reads])]
  exact Script.run_bind_of hrun

theorem run_nextEntry (reads : store.Reads host plain) (ahead : cursor.Ahead store plain pairs)
    {pair : Bytes × Bytes} {rest : List (Bytes × Bytes)} (hbuffer : cursor.buffer = pair :: rest) :
    (cursor.nextEntry store).run host =
      ((.ok pair, { cursor with buffer := rest, currentKey := some pair.1 }), host) := by
  have hrefill : cursor.refill store = .done (.ok (), cursor) := by
    simp [refill, hbuffer]
  have hhasNext : (cursor.hasNext store).run host = ((.ok true, cursor), host) := by
    simp [hasNext, ahead.isStale reads, hrefill, hbuffer, Except.map]
  refine (Script.run_bind_of hhasNext).trans ?_
  simp [hbuffer]

/-- A walk gives the pairs that it has yet to give in order, and ends behind the last one. -/
theorem run_item (reads : store.Reads host plain) (ahead : cursor.Ahead store plain pairs) :
    (pairs = [] → ∃ cursor', (cursor.item store).run host = ((none, cursor'), host)) ∧
    ∀ pair rest, pairs = pair :: rest → ∃ cursor',
      (cursor.item store).run host = ((some (.ok pair), cursor'), host) ∧
        cursor'.Ahead store plain rest := by
  obtain ⟨refilled, hrun, hahead, hempty⟩ := run_hasNext reads ahead
  obtain ⟨behind, hpairs, hbehind⟩ := hahead.pairs
  unfold item
  rw [if_neg (by simp [ahead.unfused])]
  cases hbuffer : refilled.buffer with
  | nil =>
    rw [hbuffer] at hrun
    refine ⟨fun _ => ⟨refilled, Script.run_bind_of hrun⟩, fun pair rest hpair => ?_⟩
    rw [hempty hbuffer] at hpair
    cases hpair
  | cons first others =>
    rw [hbuffer] at hrun hpairs
    refine ⟨fun hnil => ?_, fun pair rest hpair => ?_⟩
    · rw [hnil] at hpairs
      cases hpairs
    · obtain ⟨rfl, rfl⟩ := List.cons.inj (hpair.symm.trans hpairs)
      refine ⟨{ refilled with buffer := others, currentKey := some pair.1 }, ?_,
        hahead.generation, hahead.unfused, behind, rfl, hbehind⟩
      exact (Script.run_bind_of hrun).trans
        (Script.run_bind_of (run_nextEntry reads hahead hbuffer))

/-- At most `limit` items of a walk are its first pairs. -/
theorem run_take (reads : store.Reads host plain) (ahead : cursor.Ahead store plain pairs)
    (limit : Nat) :
    ∃ cursor', (cursor.take store limit).run host =
      (((pairs.take limit).map .ok, cursor'), host) := by
  induction limit generalizing cursor pairs with
  | zero => exact ⟨cursor, rfl⟩
  | succ limit ih =>
    obtain ⟨hend, hmore⟩ := run_item reads ahead
    cases pairs with
    | nil =>
      obtain ⟨cursor', hrun⟩ := hend rfl
      exact ⟨cursor', Script.run_bind_of hrun⟩
    | cons pair rest =>
      obtain ⟨cursor', hrun, hahead⟩ := hmore pair rest rfl
      obtain ⟨last, hlast⟩ := ih hahead
      exact ⟨last, (Script.run_bind_of hrun).trans (Script.run_bind_of hlast)⟩

end Cursor

/-- The items of a walk are the pairs of the map in ascending order. -/
theorem Store.Reads.items (reads : store.Reads host plain) (start : Bytes) :
    ∃ pairs, plain.Lists start pairs ∧
      ∀ limit, (store.items start limit).run host = (.ok ((pairs.take limit).map .ok), host) := by
  obtain ⟨live, hlive, hscan⟩ := reads.live
  obtain ⟨page, _, rest, hlists, _⟩ := hscan start 0
  refine ⟨page ++ rest, hlists, fun limit => ?_⟩
  let cursor : Cursor := {
    generation := store.generation, pageSize := store.config.cursorBatchSize
    resumeAt := some start }
  have hsearch : store.search start = .ok cursor := by
    simp [Store.search, Store.liveGeneration, hlive, Except.map, cursor]
  have hahead : cursor.Ahead store plain (page ++ rest) := ⟨rfl, rfl, _, rfl, hlists⟩
  obtain ⟨cursor', hrun⟩ := Cursor.run_take reads hahead limit
  unfold Store.items
  rw [hsearch]
  exact Script.run_bind_of hrun

end OrderedStore
