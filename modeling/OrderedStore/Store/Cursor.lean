import OrderedStore.Store

/-!
# Cursors

A cursor walks the entries of a store in ascending key order. It fetches them in pages, and between
two pages it keeps nothing but the key to go on from, so it never stands in the way of a flush; what
is written behind the fetched page while the cursor walks may be seen.

Main definitions:

- `Cursor.hasNext`, `Cursor.nextEntry`, `Cursor.removeCurrent`: one step of a walk.
- `Cursor.item`, `Cursor.take`: the walk as a sequence that ends after its first error.
-/

namespace OrderedStore

/-- A walk through one generation of a store. -/
structure Cursor where
  generation : Nat
  pageSize : Nat
  /-- The entries fetched and not yet returned. -/
  buffer : List (Bytes × Bytes) := []
  /-- The key that the next page starts at; `none` once a page was empty. -/
  resumeAt : Option Bytes
  /-- The key last returned, unless it was removed. -/
  currentKey : Option Bytes := none
  /-- Whether the sequence of items has ended with an error. -/
  fused : Bool := false
deriving DecidableEq

namespace Store

variable {m : Type → Type} {H : Type}

/-- A cursor before the first key that is at least `start`. -/
def search (store : Store m H) (start : Bytes) : Except Error Cursor :=
  store.liveGeneration.map fun generation =>
    { generation, pageSize := store.config.cursorBatchSize, resumeAt := some start }

def loadAll (store : Store m H) : Except Error Cursor :=
  store.search []

end Store

namespace Cursor

variable {m : Type → Type} {H : Type} [Monad m] [Backend m H]

def isStale (cursor : Cursor) (store : Store m H) : Bool :=
  !store.isCurrent cursor.generation

/-- Fetches the next page if no entry is left of the last one. -/
def refill (cursor : Cursor) (store : Store m H) : m (Except Error Unit × Cursor) := do
  match cursor.buffer, cursor.resumeAt with
  | [], some start =>
    match ← store.ask (some cursor.generation) (Backend.scan · start cursor.pageSize) with
    | .error e => return (.error e, cursor)
    | .ok page =>
      -- An empty page leaves no key to resume at, and the handle is not asked again.
      let resumeAt := page.getLast?.map fun entry => entry.1.successor
      return (.ok (), { cursor with buffer := page, resumeAt })
  | _, _ => return (.ok (), cursor)

def hasNext (cursor : Cursor) (store : Store m H) : m (Except Error Bool × Cursor) := do
  if cursor.isStale store then return (.error .staleHandle, cursor)
  else
    let (result, cursor) ← cursor.refill store
    return (result.map fun () => !cursor.buffer.isEmpty, cursor)

/-- Goes on to the next entry; an error if there is none. -/
def nextEntry (cursor : Cursor) (store : Store m H) :
    m (Except Error (Bytes × Bytes) × Cursor) := do
  let (result, cursor) ← cursor.hasNext store
  match result, cursor.buffer with
  | .error e, _ => return (.error e, cursor)
  | .ok _, [] => return (.error .iteratorExhausted, cursor)
  | .ok _, entry :: rest =>
    return (.ok entry, { cursor with buffer := rest, currentKey := some entry.1 })

/-- Removes the entry last returned from the store. -/
def removeCurrent (cursor : Cursor) (store : Store m H) :
    m (Except Error Unit × Cursor × Store m H) := do
  if cursor.isStale store then return (.error .staleHandle, cursor, store)
  else
    match cursor.currentKey with
    | none => return (.error .noCurrentEntry, cursor, store)
    | some key => do
      let (result, store) ← store.change (some cursor.generation) (Backend.delete · key)
      match result with
      -- The key stays current, so that the removal can be tried again.
      | .error e => return (.error e, cursor, store)
      | .ok () => return (.ok (), { cursor with currentKey := none }, store)

/-- The next item of the walk as a sequence: an entry, an error, or `none` at the end. -/
def item (cursor : Cursor) (store : Store m H) :
    m (Option (Except Error (Bytes × Bytes)) × Cursor) := do
  if cursor.fused then return (none, cursor)
  else
    let (result, cursor) ← cursor.hasNext store
    match result with
    | .error e => return (some (.error e), { cursor with fused := true })
    | .ok false => return (none, cursor)
    | .ok true => do
      -- The buffer was filled just now, so this asks the handle for nothing.
      let (result, cursor) ← cursor.nextEntry store
      match result with
      | .error e => return (some (.error e), { cursor with fused := true })
      | .ok entry => return (some (.ok entry), cursor)

def take (cursor : Cursor) (store : Store m H) :
    (limit : Nat) → m (List (Except Error (Bytes × Bytes)) × Cursor)
  | 0 => return ([], cursor)
  | limit + 1 => do
    match ← cursor.item store with
    | (none, cursor) => return ([], cursor)
    | (some item, cursor) => do
      let (items, cursor) ← take cursor store limit
      return (item :: items, cursor)

/-- More items than any walk has. -/
def unlimited : Nat :=
  0x7fffffffffffffff

end Cursor

end OrderedStore
