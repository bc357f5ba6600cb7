import OrderedStore.Engine
import OrderedStore.Engine.Merge
import OrderedStore.Log.Appender
import OrderedStore.Log.Recovery
import OrderedStore.TableStack

/-!
# The portable engine

A handle keeps recent mutations in a memtable and in a log, and older ones in a stack of tables:

- a mutation is logged first and taken into the memtable then;
- a memtable that has reached its limit is written out as a table, and the log is emptied;
- what a crash leaves in the log is written out as a table when the directory is opened again.

The directory holds `LOCK`, which is locked while a handle is open, `wal.log` and `sstables`.
-/

namespace OrderedStore

/-- An open handle of the portable engine. -/
structure Portable where
  directory : Path
  lockFile : Handle
  log : Log.Appender
  memtable : Memtable
  tables : TableStack
  writeBufferSize : Nat
  reporting : Bool

namespace Portable

def lockName : String :=
  "LOCK"

def logName : String :=
  "wal.log"

def tablesName : String :=
  "sstables"

/-- The file by which a directory of the native engine is known. -/
def nativeMarker : String :=
  "CURRENT"

def tell (reporting : Bool) (message : String) : Script Unit :=
  if reporting then Script.call (.report message) else return ()

/-- Makes sure that the directory of a store is there and may be used. -/
def prepareDirectory (config : Config) : Action Unit := do
  let directory := config.path
  match ← Action.probe directory with
  | none =>
    if config.createIfMissing then Action.makeDirectories directory
    else throw (.io (.missingDirectory directory.text))
  | some .file => throw (.storage (.notDirectory directory.text))
  | some .directory => pure ()
  if (← Action.probe (directory.child nativeMarker)).isSome then
    throw (.storage (.nativeData directory.text))

def acquire (directory : Path) : Action Handle := do
  let path := directory.child lockName
  let handle ← Action.openFile path .keep
  ExceptT.mk do
    match ← Script.call (.lock handle) with
    -- The lock is that of the file, whatever becomes of its name.
    | .ok () => return .ok handle
    | .error .wouldBlock => return .error (.io (.locked path.text))
    | .error fault => return .error (.io (.system fault))

def recoveryMessage (recovery : Log.Recovery) : String :=
  let recovered := recovery.recovered
  let corrupted := recovery.corrupted
  let last := recovery.lastLsn
  s!"WAL recovery: {recovered} entries recovered, {corrupted} corrupted, last_lsn={last}"

/-- The mutations that the log of a directory holds, replayed on an empty memtable. -/
def replay (logPath : Path) (reporting : Bool) : Action Memtable := do
  -- A log that is missing says nothing, and is made only when it is opened for appending.
  if (← Action.probe logPath).isNone then return .empty
  let (records, recovery) ← Log.Recovery.recover logPath
  if 0 < recovery.recovered ∨ 0 < recovery.corrupted then
    Action.ofScript (tell reporting (recoveryMessage recovery))
  return Memtable.empty.applyAll (records.flatMap (·.operation.mutations))

def openedMessage (config : Config) (tableCount : Nat) : String :=
  let directory := config.path.text
  let block := config.blockSize
  let cache := config.cacheSize
  let lock := (config.path.child lockName).text
  s!"opened {directory} ({tableCount} sstables, block_size={block}, cache_size={cache} " ++
    s!"unused by this engine, lock={lock})"

/-- Writes replayed mutations out as a table and empties the log. -/
def writeOutReplayed (log : Log.Appender) (tables : TableStack) (memtable : Memtable)
    (reporting : Bool) : Action (Log.Appender × TableStack) := do
  if memtable.isEmpty then return (log, tables)
  let count := memtable.count
  Action.ofScript (tell reporting s!"writing {count} recovered entries to an SSTable")
  match ← Action.ofScript (tables.flush memtable) with
  | (.error e, _) => throw e
  | (.ok _, tables) =>
    match ← Action.ofScript log.truncate with
    | (.error e, _) => throw e
    | (.ok (), log) => return (log, tables)

/-- Opens log and tables of a locked directory. -/
def load (config : Config) (lockFile : Handle) : Action Portable := do
  let directory := config.path
  let logPath := directory.child logName
  let tables ← TableStack.start (directory.child tablesName) config.blockSize
  let memtable ← replay logPath config.logSink
  let log ← Log.Appender.start logPath config.syncPolicy
  -- The log is emptied only after its mutations are in a table.
  let (log, tables) ← writeOutReplayed log tables memtable config.logSink
  Action.ofScript (tell config.logSink (openedMessage config tables.count))
  return {
    directory
    lockFile
    log
    memtable := .empty
    tables
    writeBufferSize := config.writeBufferSize
    reporting := config.logSink }

/-- Opens the directory that a configuration names. -/
def start (config : Config) : Action Portable := do
  prepareDirectory config
  let lockFile ← acquire config.path
  -- A failure behind this gives the lock up, one before it never had it.
  (load config lockFile).orElseCleanup (Script.call (.unlock lockFile))

def writeOut (store : Portable) : Script (Except Error Unit × Portable) := do
  if store.memtable.isEmpty then return (.ok (), store)
  else
    match ← store.tables.flush store.memtable with
    | (.error e, tables) => return (.error e, { store with tables })
    | (.ok summary, tables) => do
      -- The new table answers for the memtable from here on, even if the log cannot be emptied.
      let store := { store with tables, memtable := .empty }
      match ← store.log.truncate with
      | (.error e, log) => return (.error e, { store with log })
      | (.ok (), log) => do
        let file := summary.path.text
        let count := summary.count
        tell store.reporting s!"memtable written to {file} ({count} entries)"
        return (.ok (), { store with log })

/-- Writes the memtable out if it has reached its limit. The mutation that brought it there is in
the log already, so a failure is only reported, and tried again with the next mutation. -/
def writeOutIfFull (store : Portable) : Script Portable := do
  if !store.memtable.isFull store.writeBufferSize then return store
  else
    match ← store.writeOut with
    | (.ok (), store) => return store
    | (.error e, store) => do
      tell store.reporting ("memtable write-out deferred: " ++ e.message)
      return store

def commit (store : Portable) (operation : Log.Operation) :
    Script (Except Error Unit × Portable) := do
  match ← store.log.append operation with
  | (.error e, log) => return (.error e, { store with log })
  | (.ok _, log) => do
    -- All that is in the memtable is in the log, so it is found again after a crash.
    let memtable := store.memtable.applyAll operation.mutations
    let store ← { store with log, memtable }.writeOutIfFull
    return (.ok (), store)

def get (store : Portable) (key : Bytes) : Action (Option Bytes) :=
  match store.memtable.find? key with
  | some value? => return value?
  | none => store.tables.get key

def put (store : Portable) (key value : Bytes) : Script (Except Error Unit × Portable) :=
  store.commit (.one (.put key value))

def delete (store : Portable) (key : Bytes) : Script (Except Error Unit × Portable) :=
  store.commit (.one (.delete key))

/-- Applies a batch as one operation; a batch without mutations leaves no trace. -/
def write (store : Portable) (batch : WriteBatch) : Script (Except Error Unit × Portable) :=
  if batch.isEmpty then return (.ok (), store) else store.commit (.batch batch.toList)

/-- What the memtable and every table give from a key on, newest first. -/
def sources (store : Portable) (start : Bytes) (limit : Nat) :
    Action (List (List TableEntry)) := do
  return store.memtable.range start limit :: (← store.tables.scan start limit)

/-- Scans from ever later keys until there is a live entry or no source holds more. -/
def scanWithin (store : Portable) (limit : Nat) : (rounds : Nat) → (start : Bytes) →
    Action (List (Bytes × Bytes))
  | 0, _ => return []
  | rounds + 1, start => do
    let sources ← store.sources start limit
    let horizon? := Merge.horizon? limit sources
    let live := (Merge.live (Merge.merged horizon? sources)).take limit
    match horizon?, live with
    -- Everything up to the horizon was deleted, and some source may hold more behind it.
    | some horizon, [] => scanWithin store limit rounds horizon.successor
    | _, live => return live

/-- More than the number of entries in all sources. Every round that leads to another one starts
behind an entry at which no round started before. -/
def scanRounds (store : Portable) : Nat :=
  store.memtable.count + store.tables.dataSize + 2

/-- At most `limit` entries, but at least one if there is any, from `start` on. -/
def scan (store : Portable) (start : Bytes) (limit : Nat) : Action (List (Bytes × Bytes)) :=
  store.scanWithin (max limit 1) store.scanRounds start

/-- Gives up the lock of the directory and nothing else. -/
def abandon (store : Portable) : Script Unit :=
  Script.call (.unlock store.lockFile)

/-- Writes the memtable out, forces the log to disk and gives up the lock; the lock is given up in
any case. -/
def close (store : Portable) : Script (Except Error Unit) := do
  match ← store.writeOut with
  | (.error e, _) => do
    store.abandon
    return .error e
  | (.ok (), store) => do
    match ← store.log.sync with
    | (.error e, _) => do
      store.abandon
      return .error e
    | (.ok (), _) => do
      tell store.reporting ("closed " ++ store.directory.text)
      store.abandon
      return .ok ()

instance : Backend Script Portable where
  kind _ := .portable
  get store key := (store.get key).run
  put := put
  delete := delete
  write := write
  scan store start limit := (store.scan start limit).run
  close := close
  abandon := abandon

end Portable

def Engine.portable : Engine Script Portable where
  kind := .portable
  connect config := (Portable.start config).run

end OrderedStore
