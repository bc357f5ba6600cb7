import OrderedStore.Host.Script

/-!
# Buffered output

Output to a file that is written from its beginning. Small pieces are collected until the buffer
has no room for the next one; a piece of at least the capacity of the buffer is written directly.
What the file holds at any time therefore depends on the capacity, what was put out does not.
-/

namespace OrderedStore

/-- A file being written through a buffer. -/
structure Output where
  handle : Handle
  capacity : Nat
  /-- The number of bytes that were written to the file. -/
  written : Nat := 0
  /-- The bytes that wait in the buffer. -/
  pending : Array UInt8 := #[]

namespace Output

/-- Writes behind what was written before. -/
def writeThrough (out : Output) (data : Bytes) : Action Output :=
  if data.isEmpty then return out
  else do
    Action.write out.handle out.written data
    return { out with written := out.written + data.length }

def flush (out : Output) : Action Output := do
  let out ← out.writeThrough out.pending.toList
  return { out with pending := #[] }

def put (out : Output) (piece : Bytes) : Action Output := do
  let length := piece.length
  let spare := out.capacity - out.pending.size
  let out ← if spare < length then out.flush else pure out
  -- A piece that fills the whole buffer would have to be written next anyway.
  if out.capacity ≤ length then out.writeThrough piece
  else return { out with pending := out.pending ++ piece }

def putAll (out : Output) : List Bytes → Action Output
  | [] => return out
  | piece :: rest => do
    let out ← out.put piece
    out.putAll rest

end Output

end OrderedStore
