import OrderedStore.Bytes

/-!
# Mutations

A mutation writes or deletes one key. A write batch is a list of mutations that takes effect as a
whole, in the order in which they were queued.
-/

namespace OrderedStore

/-- A change to one key. -/
inductive Mutation where
  | put (key value : Bytes)
  | delete (key : Bytes)
deriving DecidableEq

namespace Mutation

def key : Mutation → Bytes
  | .put key _ => key
  | .delete key => key

/-- What the key holds afterwards; `none` if it is deleted. -/
def value? : Mutation → Option Bytes
  | .put _ value => some value
  | .delete _ => none

end Mutation

/-- Mutations that an engine applies together or not at all. -/
structure WriteBatch where
  /-- The mutations, last queued first. -/
  queued : List Mutation := []
deriving DecidableEq

namespace WriteBatch

def empty : WriteBatch :=
  ⟨[]⟩

def push (batch : WriteBatch) (mutation : Mutation) : WriteBatch :=
  ⟨mutation :: batch.queued⟩

def put (batch : WriteBatch) (key value : Bytes) : WriteBatch :=
  batch.push (.put key value)

def delete (batch : WriteBatch) (key : Bytes) : WriteBatch :=
  batch.push (.delete key)

def size (batch : WriteBatch) : Nat :=
  batch.queued.length

def isEmpty (batch : WriteBatch) : Bool :=
  batch.queued.isEmpty

/-- The mutations in the order in which they were queued. -/
def toList (batch : WriteBatch) : List Mutation :=
  batch.queued.reverse

def ofList (mutations : List Mutation) : WriteBatch :=
  mutations.foldl push empty

@[simp]
theorem toList_empty : empty.toList = [] :=
  rfl

@[simp]
theorem toList_push (batch : WriteBatch) (mutation : Mutation) :
    (batch.push mutation).toList = batch.toList ++ [mutation] := by
  simp [toList, push]

@[simp]
theorem length_toList (batch : WriteBatch) : batch.toList.length = batch.size := by
  simp [toList, size]

theorem toList_foldl_push (mutations : List Mutation) (batch : WriteBatch) :
    (mutations.foldl push batch).toList = batch.toList ++ mutations := by
  induction mutations generalizing batch with
  | nil => simp
  | cons mutation rest ih => simp [ih]

@[simp]
theorem toList_ofList (mutations : List Mutation) : (ofList mutations).toList = mutations := by
  simp [ofList, toList_foldl_push]

theorem isEmpty_iff (batch : WriteBatch) : batch.isEmpty ↔ batch.toList = [] := by
  simp [isEmpty, toList]

end WriteBatch

end OrderedStore
