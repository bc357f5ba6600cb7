import OrderedStore.Bytes

/-!
# Errors

An error is the cause of a failure; its wording is derived in one place, `Error.message`. Several
kinds of failure have causes of their own, and each of these leaves room for a text that is
supplied from outside (`other`).

Main definitions:

- `Error.message`: the text of an error.
- `Error.isIoClass`: whether another engine may be tried after an engine failed to open this way.
- `Error.sources`: the texts of the errors behind an error, from the outside in.
-/

namespace OrderedStore

/-- What the operating system refuses a call with. -/
inductive SystemFault where
  | notFound
  | wouldBlock
  | busy
  | alreadyExists
  | notDirectory
  | isDirectory
  | invalidArgument
  | fileTooLarge
  | nameTooLong
  | notEmpty
  /-- A path that the system cannot be asked about, because a zero character ends it early. -/
  | zeroInPath
  | other (text : String)
deriving DecidableEq

def SystemFault.message : SystemFault → String
  | .notFound => "No such file or directory (os error 2)"
  | .wouldBlock => "Resource temporarily unavailable (os error 11)"
  | .busy => "Device or resource busy (os error 16)"
  | .alreadyExists => "File exists (os error 17)"
  | .notDirectory => "Not a directory (os error 20)"
  | .isDirectory => "Is a directory (os error 21)"
  | .invalidArgument => "Invalid argument (os error 22)"
  | .fileTooLarge => "File too large (os error 27)"
  | .nameTooLong => "File name too long (os error 36)"
  | .notEmpty => "Directory not empty (os error 39)"
  | .zeroInPath => "file name contained an unexpected NUL byte"
  | .other text => text

/-- Why input or output failed. -/
inductive IoCause where
  | system (fault : SystemFault)
  | endOfFile
  /-- A store's directory is missing and must not be made. -/
  | missingDirectory (directory : String)
  | locked (lockFile : String)
  | other (text : String)
deriving DecidableEq

def IoCause.message : IoCause → String
  | .system fault => fault.message
  | .endOfFile => "failed to fill whole buffer"
  | .missingDirectory directory => s!"{directory} does not exist and create_if_missing is off"
  | .locked lockFile =>
    s!"{lockFile} is locked by another handle: " ++ SystemFault.wouldBlock.message
  | .other text => text

/-- How the bytes of a log fail to be frames. -/
inductive LogDamage where
  | shortFrame
  | truncatedFrame
  | checksum (lsn : Nat)
  | sequenceMismatch (header body : Nat)
  | partialHeader (offset : Nat)
  | implausibleLength (length offset : Nat)
  | partialPayload (offset : Nat)
  | other (text : String)
deriving DecidableEq

def LogDamage.message : LogDamage → String
  | .shortFrame => "frame shorter than header"
  | .truncatedFrame => "frame truncated"
  | .checksum lsn => s!"CRC mismatch at lsn {lsn}"
  | .sequenceMismatch header body => s!"header lsn {header} does not match body lsn {body}"
  | .partialHeader offset => s!"partial header at offset {offset}"
  | .implausibleLength length offset => s!"implausible frame length {length} at offset {offset}"
  | .partialPayload offset => s!"partial payload at offset {offset}"
  | .other text => text

inductive LogRefusal where
  | oversized (length : Nat)
  | append (lsn : Nat) (fault : SystemFault)
  | other (text : String)
deriving DecidableEq

def LogRefusal.message : LogRefusal → String
  | .oversized length => s!"entry of {length} bytes exceeds frame limit"
  | .append lsn fault => s!"append lsn {lsn}: " ++ fault.message
  | .other text => text

/-- What is wrong with a table file, a table being written, or a store directory. -/
inductive StorageFault where
  | tooSmall (file : String) (size : Nat)
  | badMagic (found : Bytes)
  | unsupportedVersion (version : Nat)
  | indexOutside (file : String) (offset : Nat)
  | dataChecksum (file : String)
  | truncatedIndex (file : String)
  | unorderedKeys
  | valueTooLarge
  | emptyMemtable
  | notDirectory (path : String)
  | nativeData (directory : String)
  | other (text : String)
deriving DecidableEq

/-- Bytes as a bracketed list of numbers. -/
def Bytes.listing (bytes : Bytes) : String :=
  "[" ++ ", ".intercalate (bytes.map fun byte => toString byte.toNat) ++ "]"

def StorageFault.message : StorageFault → String
  | .tooSmall file size => s!"SSTable {file} is too small ({size} bytes)"
  | .badMagic found => "Invalid SSTable magic: expected TWKV, got " ++ found.listing
  | .unsupportedVersion version => s!"Unsupported SSTable version: {version}"
  | .indexOutside file offset => s!"SSTable {file} has index offset {offset} outside the file"
  | .dataChecksum file => s!"SSTable {file} failed its data checksum"
  | .truncatedIndex file => s!"SSTable {file} has a truncated index"
  | .unorderedKeys => "SSTable keys must be added in strictly ascending order"
  | .valueTooLarge => "value too large for SSTable"
  | .emptyMemtable => "Cannot flush empty MemTable"
  | .notDirectory path => s!"{path} is not a directory"
  | .nativeData directory => s!"{directory} holds native engine data"
  | .other text => text

/-- How the payload of a frame fails to be an entry. -/
inductive PayloadFault where
  | endOfInput
  /-- An alternative was numbered `found` where only numbers below `bound` have a meaning. -/
  | unknownVariant (found bound : Nat)
  | other (text : String)
deriving DecidableEq

def PayloadFault.message : PayloadFault → String
  | .endOfInput => "io error: unexpected end of file"
  | .unknownVariant found bound =>
    s!"invalid value: integer `{found}`, expected variant index 0 <= i < {bound}"
  | .other text => text

inductive EngineAbsence where
  | notBuilt
  | other (text : String)
deriving DecidableEq

def EngineAbsence.message : EngineAbsence → String
  | .notBuilt => "built without the `native` feature"
  | .other text => text

inductive ConfigFault where
  | emptyPath
  | zeroBlockSize
  | zeroCacheSize
  | zeroWriteBufferSize
  | zeroCursorBatchSize
  | zeroSyncInterval
  | other (text : String)
deriving DecidableEq

def ConfigFault.message : ConfigFault → String
  | .emptyPath => "path must not be empty"
  | .zeroBlockSize => "block_size must be positive"
  | .zeroCacheSize => "cache_size must be positive"
  | .zeroWriteBufferSize => "write_buffer_size must be positive"
  | .zeroCursorBatchSize => "cursor_batch_size must be positive"
  | .zeroSyncInterval => "WAL sync interval must be positive"
  | .other text => text

/-- Every way in which an operation on a store or its parts fails. -/
inductive Error where
  | io (cause : IoCause)
  | logCorruption (damage : LogDamage)
  | logWrite (refusal : LogRefusal)
  | storage (fault : StorageFault)
  /-- One sorted table does not hold the key; a store never fails this way. -/
  | keyNotFound
  | serialization (fault : PayloadFault)
  | engineUnavailable (absence : EngineAbsence)
  | native (text : String)
  /-- Both engines failed to open. -/
  | storeOpen (preferred fallback : Error)
  | batchWrite (cause : Error)
  | iteratorExhausted
  | noCurrentEntry
  | staleHandle
  | closed
  | resourceRelease (resource : String) (cause : Error)
  | config (fault : ConfigFault)
deriving DecidableEq

namespace Error

def message : Error → String
  | .io cause => "IO error: " ++ cause.message
  | .logCorruption damage => "WAL corruption detected: " ++ damage.message
  | .logWrite refusal => "WAL write failed: " ++ refusal.message
  | .storage fault => "Storage error: " ++ fault.message
  | .keyNotFound => "Key not found"
  | .serialization fault => "Serialization error: " ++ fault.message
  | .engineUnavailable absence => "Engine unavailable: " ++ absence.message
  | .native text => "Native engine error: " ++ text
  | .storeOpen preferred fallback =>
    "Store open failed on both engines (preferred: " ++ preferred.message ++ "): " ++
      fallback.message
  | .batchWrite cause => "Batch write failed: " ++ cause.message
  | .iteratorExhausted => "Cursor has no remaining entries"
  | .noCurrentEntry => "Cursor has no current entry to remove"
  | .staleHandle => "Backend handle was replaced or closed"
  | .closed => "Store is closed"
  | .resourceRelease resource cause => s!"Failed to release {resource}: " ++ cause.message
  | .config fault => "Configuration error: " ++ fault.message

/-- Whether an engine that fails to open this way may be replaced by another engine. -/
def isIoClass : Error → Bool
  | .io _ | .logCorruption _ | .logWrite _ | .storage _ | .serialization _
  | .engineUnavailable _ | .native _ => true
  | .keyNotFound | .storeOpen _ _ | .batchWrite _ | .iteratorExhausted | .noCurrentEntry
  | .staleHandle | .closed | .resourceRelease _ _ | .config _ => false

/-- The texts of the errors that led to an error, the nearest first. -/
def sources : Error → List String
  | .io cause => [cause.message]
  | .storeOpen _ fallback => fallback.message :: fallback.sources
  | .batchWrite cause => cause.message :: cause.sources
  | .resourceRelease _ cause => cause.message :: cause.sources
  | _ => []

end Error

end OrderedStore
