import OrderedStore.Host.Script
import OrderedStore.Log.Frame

/-!
# Reading a log

A stream reads the records of a log file one after the other, fetching the file in chunks and
keeping what it fetched too early. Its position is the offset just behind the last record it gave
out; a failure leaves the position where it was.

Main definitions:

- `Stream.next`: the next record, the end, or what is wrong there.
- `Stream.drain`: all records up to the end or the first failure.
-/

namespace OrderedStore.Log

/-- A log file being read. -/
structure Stream where
  handle : Handle
  /-- Where the file was read up to. -/
  offset : Nat := 0
  /-- What was read from the file and not yet used. -/
  pending : Bytes := []
  /-- The offset just behind the last record given out. -/
  position : Nat := 0

namespace Stream

def chunkSize : Nat :=
  8192

def start (path : Path) : Action Stream := do
  return { handle := ← Action.openFile path .read }

/-- The next `count` bytes; fewer only if the file ends. A request of at least a chunk is read
without being kept. -/
def fetch (stream : Stream) (count : Nat) : Script (Except Error Bytes × Stream) := do
  let front := stream.pending.take count
  let missing := count - front.length
  if missing = 0 then
    return (.ok front, { stream with pending := stream.pending.drop count })
  else
    match ← (Action.read stream.handle stream.offset (max missing chunkSize)).run with
    | .error e => return (.error e, stream)
    | .ok chunk =>
      let offset := stream.offset + chunk.length
      if chunkSize ≤ missing then
        return (.ok (front ++ chunk), { stream with offset, pending := [] })
      else
        return (.ok (front ++ chunk.take missing),
          { stream with offset, pending := chunk.drop missing })

/-- The next record; `none` at the end of the file. -/
def next (stream : Stream) : Script (Except Error (Option Record) × Stream) := do
  match ← stream.fetch Header.size with
  | (.error e, stream) => return (.error e, stream)
  | (.ok raw, stream) =>
    if raw.isEmpty then return (.ok none, stream)
    else if raw.length < Header.size then
      return (.error (.logCorruption (.partialHeader stream.position)), stream)
    else
      let header := Header.decode raw
      -- Without this check a damaged length would make the rest of the file one payload.
      if Frame.payloadLimit < header.length then
        return (.error (.logCorruption (.implausibleLength header.length stream.position)), stream)
      else
        match ← stream.fetch header.length with
        | (.error e, stream) => return (.error e, stream)
        | (.ok payload, stream) =>
          if payload.length < header.length then
            return (.error (.logCorruption (.partialPayload stream.position)), stream)
          else
            match Frame.record header payload with
            -- The bytes of the frame are used up, and the position does not count them.
            | .error e => return (.error e, stream)
            | .ok record =>
              return (.ok (some record),
                { stream with position := stream.position + (Header.size + header.length) })

/-- At most `count` records, up to the end or the first failure. They come behind the ones that were
read already, which are given last one first. -/
def drainBehind : (read : List Record) → (count : Nat) → Stream →
    Script (List Record × Option Error × Stream)
  | read, 0, stream => return (read.reverse, none, stream)
  | read, count + 1, stream => do
    match ← stream.next with
    | (.error e, stream) => return (read.reverse, some e, stream)
    | (.ok none, stream) => return (read.reverse, none, stream)
    | (.ok (some record), stream) => drainBehind (record :: read) count stream

/-- All records up to the end or the first failure. Every record takes up some byte of the file, so
the size of the file bounds their number. -/
def drain (stream : Stream) : Script (List Record × Option Error × Stream) := do
  let size ← Script.call (.size stream.handle)
  stream.drainBehind [] (size + 1)

end Stream

/-- Walks the records of a stream, and ends after the first failure. -/
structure Walk where
  stream : Stream
  finished : Bool := false

def Walk.next (walk : Walk) : Script (Option (Except Error Record) × Walk) := do
  if walk.finished then return (none, walk)
  else
    match ← walk.stream.next with
    | (.ok (some record), stream) => return (some (.ok record), { walk with stream })
    | (.ok none, stream) => return (none, { stream, finished := true })
    | (.error e, stream) => return (some (.error e), { stream, finished := true })

end OrderedStore.Log
