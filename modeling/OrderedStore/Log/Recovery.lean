import OrderedStore.Log.Stream

/-!
# Recovery of a log

After a crash the end of a log may be torn. Recovery takes the records up to the first place that
does not read as a frame, and cuts the file there.
-/

namespace OrderedStore.Log

/-- What a reading of a whole log found. -/
structure Recovery where
  recovered : Nat := 0
  /-- The number of damaged records met: the first one ends the reading. -/
  corrupted : Nat := 0
  /-- The sequence number of the last record read, or 0. -/
  lastLsn : UInt64 := 0
  truncated : Bool := false
deriving DecidableEq

namespace Recovery

/-- Reads a whole log; the last component is the offset behind its last good record. -/
def scan (path : Path) : Action (List Record × Recovery × Nat) := do
  let stream ← Stream.start path
  let (records, failure, stream) ← Action.ofScript stream.drain
  let recovery : Recovery :=
    { recovered := records.length
      corrupted := if failure.isSome then 1 else 0
      lastLsn := (records.getLast?.map (·.lsn)).getD 0 }
  return (records, recovery, stream.position)

/-- Reads a whole log and leaves it as it is. -/
def verify (path : Path) : Action Recovery := do
  let (_, recovery, _) ← scan path
  return recovery

/-- Reads a whole log and cuts it behind its last good record if it is damaged. -/
def recover (path : Path) : Action (List Record × Recovery) := do
  let (records, recovery, length) ← scan path
  if recovery.corrupted = 0 then
    -- A log without damage is not opened for writing.
    return (records, recovery)
  else
    let handle ← Action.openFile path .update
    Action.resize handle length
    Action.sync handle
    return (records, { recovery with truncated := true })

end Recovery

end OrderedStore.Log
