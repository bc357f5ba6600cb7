import OrderedStore.Proofs.Store.Contract
import OrderedStore.Store.Session

/-!
# Requests to a session

Everything that can be done with the stores, batches and cursors of a session once a store is
connected, as data: a request names the objects that it is about, and is answered with what its
caller is told.

Main definitions:

- `Session.Request`, `Session.Answer`: requests and what they are answered with.
- `Session.serve`: does what is asked for.

Main statements: `Store.flush_of_live` and `Store.flush_of_none` say how a flush comes about.
-/

namespace OrderedStore

/-! ## How a flush comes about -/

namespace Store

section

variable {m : Type → Type} {H : Type}

/-- A store that gave its handle up. -/
def givenUp (store : Store m H) : Store m H :=
  { store with live := none, generation := store.generation + 1 }

/-- What an attempt to open another handle makes of a store without one. -/
def reopened (store : Store m H) : Except Error (Live H) → Except Error Unit × Store m H
  | .error e => (.error e, store)
  | .ok live => (.ok (), { store with live := some live })

/-- The handle that a call may use is the live one. -/
theorem live_of_current {store : Store m H} {caller? : Option Nat} {live : Live H}
    (h : store.current caller? = .ok live) : store.live = some live := by
  unfold current at h
  split at h
  case h_1 hlive => cases h; exact hlive
  case h_2 => cases h
  case h_3 hlive =>
    split at h
    · cases h; exact hlive
    · cases h
  case h_4 => cases h

end

variable {σ H : Type} [Backend (StateM σ) H] {store : Store (StateM σ) H} {live : Live H}
  {outcome : Except Error (Live H)} {s middle after : σ}

theorem flush_of_none (hopen : store.closed = false) (hlive : store.live = none)
    (hconnect : store.selector.connect store.config s = (outcome, after)) :
    store.flush s = (store.reopened outcome, after) := by
  obtain ⟨config, selector, live?, generation, closed⟩ := store
  obtain rfl : closed = false := hopen
  obtain rfl : live? = none := hlive
  cases outcome <;> exact (state_bind rfl).trans (state_bind hconnect)

theorem flush_of_live {result : Except Error Unit} (hopen : store.closed = false)
    (hlive : store.live = some live)
    (hclose : (Backend.close live.handle : StateM σ (Except Error Unit)) s = (result, middle))
    (hconnect : store.selector.connect store.config middle = (outcome, after)) :
    store.flush s = (store.givenUp.reopened outcome, after) := by
  obtain ⟨config, selector, live?, generation, closed⟩ := store
  obtain rfl : closed = false := hopen
  obtain rfl : live? = some live := hlive
  cases outcome <;>
    exact (state_bind hclose).trans ((state_bind rfl).trans (state_bind hconnect))

end Store

/-! ## Requests -/

namespace Session

/-- What a session can be asked for. -/
inductive Request where
  | share (name other : String)
  | release (name : String)
  | get (name : String) (key : Bytes)
  | put (name : String) (key value : Bytes)
  | remove (name : String) (key : Bytes)
  | putAll (name : String) (entries : List (Bytes × Bytes))
  | removeAll (name : String) (keys : List Bytes)
  | flush (name : String)
  | close (name : String)
  | beginBatch (name batch : String)
  | queue (batch : String) (mutation : Mutation)
  | commitBatch (batch : String)
  /-- A batch is given up, by intent or because it goes out of use. -/
  | dropBatch (batch : String)
  | search (name cursor : String) (start : Bytes)
  | hasNext (cursor : String)
  | nextEntry (cursor : String)
  | item (cursor : String)
  | removeCurrent (cursor : String)
  | dropCursor (cursor : String)

/-- What a caller is told. -/
inductive Answer where
  /-- Nothing has the name. -/
  | unknown
  /-- A name was given, taken away or given to another object. -/
  | named
  | queued (size : Nat)
  | done (result : Except Error Unit)
  | found (result : Except Error (Option Bytes))
  | told (result : Except Error Bool)
  | entry (result : Except Error (Bytes × Bytes))
  | item (item? : Option (Except Error (Bytes × Bytes)))

/-- The answer to a request about a name that something may have. -/
def Answer.of {α : Type} (answer : α → Answer) (value? : Option α) : Answer :=
  (value?.map answer).getD .unknown

/-- Queues a mutation in a batch. -/
def queueing : Mutation → Batch → Batch
  | .put key value, batch => batch.put key value
  | .delete key, batch => batch.delete key

theorem queueing_generation (batch : Batch) (mutation : Mutation) :
    (queueing mutation batch).generation = batch.generation := by
  cases mutation <;> rfl

variable {m : Type → Type} {H : Type} [Monad m]

/-- Answers with what a call gives. -/
def answering {α : Type} (answer : α → Answer) (call : m (Option α × Session m H)) :
    m (Answer × Session m H) := do
  let (value?, session) ← call
  return (.of answer value?, session)

variable [Backend m H]

/-- Does what is asked for. -/
def serve (session : Session m H) : Request → m (Answer × Session m H)
  | .share name other => answering (fun _ => .named) (session.share name other)
  | .release name => answering (fun _ => .named) (session.release name)
  | .get name key => do
    let value? ← session.ask name (Store.get · key)
    return (.of .found value?, session)
  | .put name key value => answering .done (session.onStore name (Store.put · key value))
  | .remove name key => answering .done (session.onStore name (Store.remove · key))
  | .putAll name entries => answering .done (session.onStore name (Store.putAll · entries))
  | .removeAll name keys => answering .done (session.onStore name (Store.removeAll · keys))
  | .flush name => answering .done (session.onStore name Store.flush)
  | .close name => answering .done (session.onStore name Store.close)
  | .beginBatch name batch => answering .done (session.beginBatch name batch)
  | .queue batch mutation =>
    answering (.queued ·.size) (pure (session.updateBatch batch (queueing mutation)))
  | .commitBatch batch => answering .done (session.commitBatch batch)
  | .dropBatch batch => answering (fun _ => .named) (session.dropBatch batch)
  | .search name cursor start => answering .done (session.search name cursor start)
  | .hasNext cursor => answering .told (session.moveCursor cursor Cursor.hasNext)
  | .nextEntry cursor => answering .entry (session.moveCursor cursor Cursor.nextEntry)
  | .item cursor => answering .item (session.moveCursor cursor Cursor.item)
  | .removeCurrent cursor => answering .done (session.onCursor cursor Cursor.removeCurrent)
  | .dropCursor cursor => answering (fun _ => .named) (session.dropCursor cursor)

end Session

end OrderedStore
