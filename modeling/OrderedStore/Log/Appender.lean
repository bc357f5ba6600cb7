import OrderedStore.Log.Stream

/-!
# Appending to a log

An appender writes whole frames at the end of a log file and numbers them consecutively. When the
file is forced to disk is up to the sync policy. A frame that could not be written completely is
cut off again.
-/

namespace OrderedStore.Log

/-- A log file open for appending. -/
structure Appender where
  path : Path
  handle : Handle
  nextLsn : UInt64
  policy : SyncPolicy
  /-- The number of records written since the file was last forced to disk. -/
  unsynced : Nat
  /-- The size of the file up to the last whole frame. -/
  committed : Nat

namespace Appender

/-- The sequence number of the last record that can be read from a file, or 0. -/
def lastLsn (path : Path) : Action UInt64 := do
  let stream ← Stream.start path
  let (records, _, _) ← Action.ofScript stream.drain
  return (records.getLast?.map (·.lsn)).getD 0

/-- Opens a log file for appending, making it if it is missing; numbers continue after the last
record in it. -/
def start (path : Path) (policy : SyncPolicy) : Action Appender := do
  let last ← if (← Action.probe path).isSome then lastLsn path else pure 0
  let handle ← Action.openFile path .keep
  let committed ← Action.size handle
  return { path, handle, nextLsn := last + 1, policy, unsynced := 0, committed }

def sync (log : Appender) : Script (Except Error Unit × Appender) := do
  match ← (Action.sync log.handle).run with
  | .error e => return (.error e, log)
  | .ok () => return (.ok (), { log with unsynced := 0 })

def syncDue (log : Appender) : Bool :=
  match log.policy with
  | .everyWrite => true
  | .everyEntries count => count ≤ log.unsynced

/-- Cuts the file back to its last whole frame. -/
def rollback (log : Appender) : Action Unit :=
  Action.resize log.handle log.committed

def appendFrame (log : Appender) (frame : Bytes) : Script (Except Error Unit × Appender) := do
  match ← Script.call (.append log.handle frame) with
  | .error fault => do
    -- A part of the frame may be in the file. If that cannot be cut off, this is what is told.
    match ← (log.rollback).run with
    | .error e => return (.error e, log)
    | .ok () => return (.error (.logWrite (.append log.nextLsn.toNat fault)), log)
  | .ok () =>
    let log := { log with
      committed := log.committed + frame.length
      nextLsn := log.nextLsn + 1
      unsynced := log.unsynced + 1 }
    -- The frame is in the log from here on, even if the file cannot be forced to disk.
    if log.syncDue then log.sync else return (.ok (), log)

def append (log : Appender) (operation : Operation) :
    Script (Except Error UInt64 × Appender) := do
  let timestamp ← Script.call .clock
  match Frame.encode { lsn := log.nextLsn, operation, timestamp } with
  | .error refusal => return (.error (.logWrite refusal), log)
  | .ok frame => do
    let (result, after) ← log.appendFrame frame
    return (result.map fun () => log.nextLsn, after)

/-- Drops every record, once they are durable elsewhere; numbers go on. -/
def truncate (log : Appender) : Script (Except Error Unit × Appender) := do
  let emptied : Action Unit := do
    Action.resize log.handle 0
    Action.sync log.handle
  match ← emptied.run with
  | .error e => return (.error e, log)
  | .ok () => return (.ok (), { log with unsynced := 0, committed := 0 })

end Appender

end OrderedStore.Log
