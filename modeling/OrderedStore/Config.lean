import OrderedStore.Error
import OrderedStore.Host.Path

/-!
# Configuration

The settings a store is opened with. `Config.validate` names the first setting that no engine can
run with.
-/

namespace OrderedStore

/-- When the log is forced to disk. -/
inductive SyncPolicy where
  | everyWrite
  /-- After this many entries that were not yet forced. -/
  | everyEntries (count : Nat)
deriving DecidableEq

/-- The settings of a store. -/
structure Config where
  path : Path := .ofText "./twinkv_data"
  createIfMissing : Bool := true
  /-- The granularity of table input and output, in bytes. -/
  blockSize : Nat := 32 * 1024
  cacheSize : Nat := 64 * 1024 * 1024
  logSink : Bool := false
  syncPolicy : SyncPolicy := .everyEntries 100
  /-- The memtable size from which on it is written out, in bytes. -/
  writeBufferSize : Nat := 4 * 1024 * 1024
  /-- The number of entries a cursor fetches at once. -/
  cursorBatchSize : Nat := 256
deriving DecidableEq

/-- Refuses settings that no engine can run with, naming the first one. -/
def Config.validate (config : Config) : Except ConfigFault Unit :=
  if config.path.text = "" then .error .emptyPath
  else if config.blockSize = 0 then .error .zeroBlockSize
  else if config.cacheSize = 0 then .error .zeroCacheSize
  else if config.writeBufferSize = 0 then .error .zeroWriteBufferSize
  else if config.cursorBatchSize = 0 then .error .zeroCursorBatchSize
  else if config.syncPolicy = .everyEntries 0 then .error .zeroSyncInterval
  else .ok ()

end OrderedStore
