import OrderedStore.Checksum
import OrderedStore.Host.Output
import OrderedStore.Table.Layout

/-!
# Writing a table

A draft is a table file being written, entry by entry in ascending key order. Finishing it adds
index and footer and puts the number of entries into the header.
-/

namespace OrderedStore.Table

/-- What is known about a finished table. -/
structure Summary where
  path : Path
  count : Nat
  minKey : Bytes
  maxKey : Bytes
  fileSize : Nat

def Summary.mightContain (summary : Summary) (key : Bytes) : Bool :=
  summary.minKey ≤ key ∧ key ≤ summary.maxKey

/-- A table file being written. -/
structure Draft where
  path : Path
  out : Output
  offset : Nat := headerSize
  /-- Where each entry begins, newest first. -/
  offsets : List (Bytes × Nat) := []
  /-- The checksum register after the data so far. -/
  register : UInt32 := Checksum.start

namespace Draft

/-- Starts a table file in place of what stood there; its header does not count entries yet. -/
def start (path : Path) (capacity : Nat := defaultCapacity) : Action Draft := do
  let handle ← Action.openFile path .replace
  let out : Output := { handle, capacity }
  return { path, out := ← out.putAll (headerPieces 0) }

def lastKey? (draft : Draft) : Option Bytes :=
  draft.offsets.head?.map (·.1)

/-- What an entry is refused for, if anything. -/
def refusal? (draft : Draft) (key : Bytes) (value? : Option Bytes) : Option StorageFault :=
  if draft.lastKey?.any (key ≤ ·) then some .unorderedKeys
  else if value?.any (tombstoneMark ≤ ·.length) then some .valueTooLarge
  else none

def add (draft : Draft) (key : Bytes) (value? : Option Bytes) : Action Draft := do
  match draft.refusal? key value? with
  | some fault => throw (.storage fault)
  | none =>
    let pieces := entryPieces key value?
    let out ← draft.out.putAll pieces
    return { draft with
      out
      offset := draft.offset + pieces.flatten.length
      offsets := (key, draft.offset) :: draft.offsets
      register := pieces.foldl Checksum.feed draft.register }

def addAll (draft : Draft) : List TableEntry → Action Draft
  | [] => return draft
  | (key, value?) :: rest => do
    let draft ← draft.add key value?
    draft.addAll rest

/-- Gives the table up; what waits in the buffer still goes to the file. -/
def abandon (draft : Draft) : Script Unit := do
  let _ ← draft.out.flush.run

/-- Completes the file and forces it to disk. -/
def finish (draft : Draft) : Action Summary := do
  let index := indexPieces draft.offsets.reverse
  let footer := footerPieces draft.offset (Checksum.finish draft.register)
  let out ← draft.out.putAll (index ++ footer)
  let out ← out.flush
  let count := draft.offsets.length
  -- The header was written when the number of entries was not known yet.
  Action.write out.handle countOffset (Bytes.littleEndian 8 count)
  Action.sync out.handle
  let fileSize ← Action.size out.handle
  return {
    path := draft.path
    count
    minKey := (draft.offsets.getLast?.map (·.1)).getD []
    maxKey := draft.lastKey?.getD []
    fileSize }

end Draft

end OrderedStore.Table
