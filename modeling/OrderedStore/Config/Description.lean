import OrderedStore.Config
import OrderedStore.Text.Quoted

/-!
# The description of a configuration

A configuration on one line, with every setting by name.
-/

namespace OrderedStore

/-- A name with named values in braces. -/
def bracedRecord (name : String) (fields : List (String × String)) : String :=
  name ++ " \x7b " ++
    ", ".intercalate (fields.map fun (field, value) => field ++ ": " ++ value) ++ " \x7d"

def SyncPolicy.describe : SyncPolicy → String
  | .everyWrite => "EveryWrite"
  | .everyEntries count => bracedRecord "EveryNEntries" [("count", toString count)]

def Config.describe (config : Config) : String :=
  bracedRecord "Config" [
    ("path", Text.quoted config.path.text),
    ("create_if_missing", toString config.createIfMissing),
    ("block_size", toString config.blockSize),
    ("cache_size", toString config.cacheSize),
    ("log_sink", if config.logSink then "Some(\"<fn>\")" else "None"),
    ("wal_sync_strategy", config.syncPolicy.describe),
    ("write_buffer_size", toString config.writeBufferSize),
    ("cursor_batch_size", toString config.cursorBatchSize)]

end OrderedStore
