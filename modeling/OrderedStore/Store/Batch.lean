import OrderedStore.Store

/-!
# Batches

A batch collects mutations for the handle under which it was made. Nothing happens to the store
until it is committed; then all mutations take effect or none.
-/

namespace OrderedStore

/-- Mutations queued for one generation of a store. -/
structure Batch where
  generation : Nat
  pending : WriteBatch := .empty
deriving DecidableEq

namespace Batch

variable {m : Type → Type} {H : Type} [Monad m] [Backend m H]

def put (batch : Batch) (key value : Bytes) : Batch :=
  { batch with pending := batch.pending.put key value }

def delete (batch : Batch) (key : Bytes) : Batch :=
  { batch with pending := batch.pending.delete key }

def size (batch : Batch) : Nat :=
  batch.pending.size

/-- How a failed commit is reported: a handle that is gone as such, all else as a failed write. -/
def commitError : Error → Error
  | .staleHandle => .staleHandle
  | .closed => .closed
  | e => .batchWrite e

/-- Applies the queued mutations in order, or none. -/
def commit (batch : Batch) (store : Store m H) : m (Except Error Unit × Store m H) := do
  let (result, store) ← store.change (some batch.generation) (Backend.write · batch.pending)
  return (result.mapError commitError, store)

end Batch

namespace Store

variable {m : Type → Type} {H : Type} [Monad m] [Backend m H]

def batch (store : Store m H) : Except Error Batch :=
  store.liveGeneration.map fun generation => { generation }

/-- Commits mutations as one batch. -/
def commitAll (store : Store m H) (mutations : List Mutation) :
    m (Except Error Unit × Store m H) := do
  match store.batch with
  | .error e => return (.error e, store)
  | .ok batch => Batch.commit { batch with pending := .ofList mutations } store

def putAll (store : Store m H) (entries : List (Bytes × Bytes)) :
    m (Except Error Unit × Store m H) :=
  store.commitAll (entries.map fun (key, value) => .put key value)

def removeAll (store : Store m H) (keys : List Bytes) : m (Except Error Unit × Store m H) :=
  store.commitAll (keys.map .delete)

end Store

end OrderedStore
