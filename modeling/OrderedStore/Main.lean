import OrderedStore.CommandLine
import OrderedStore.Host.Content
import Std.Time.DateTime.Timestamp

/-!
# The program

Runs the command line on the files of the machine: every call of a script becomes an operation of
the operating system. Files are reopened by name for every access; only locks are held open.
-/

namespace OrderedStore.Machine

/-- What a handle stands for. -/
structure OpenFile where
  path : String
  /-- Kept open for its lock. -/
  file : IO.FS.Handle

/-- Work on the machine, with the files that were opened by the number of their handle. -/
abbrev Work := ReaderT (IO.Ref (Array OpenFile)) IO

/-- The fault that an error of the system stands for. -/
def toFault (e : IO.Error) : SystemFault :=
  match e with
  | .alreadyExists _ code details | .invalidArgument _ code details
  | .permissionDenied _ code details | .resourceExhausted _ code details
  | .inappropriateType _ code details | .noSuchThing _ code details
  | .noFileOrDirectory _ code details | .interrupted _ code details
  | .otherError code details | .resourceBusy code details | .resourceVanished code details
  | .unsupportedOperation code details | .hardwareFault code details
  | .unsatisfiedConstraints code details | .illegalOperation code details
  | .protocolError code details | .timeExpired code details =>
    match code.toNat with
    | 2 => .notFound
    | 11 => .wouldBlock
    | 16 => .busy
    | 17 => .alreadyExists
    | 20 => .notDirectory
    | 21 => .isDirectory
    | 22 => .invalidArgument
    | 27 => .fileTooLarge
    | 36 => .nameTooLong
    | 39 => .notEmpty
    | code => .other s!"{details} (os error {code})"
  | .unexpectedEof => .other "unexpected end of file"
  | .userError text => .other text

/-- An operation with the fault that it fails with. -/
def attempt {α : Type} (action : IO α) : IO (Except SystemFault α) := do
  try
    return .ok (← action)
  catch e => return .error (toFault e)

def kind? (path : String) : IO (Option FileKind) := do
  try
    let place ← IO.FS.realPath path
    if ← place.isDir then return some .directory
    else if ← place.pathExists then return some .file
    else return none
  catch _ => return none

def makeDirectory (path : String) : IO Unit := do
  try
    IO.FS.createDir path
  catch e =>
    if toFault e = .alreadyExists ∧ (← kind? path) = some .directory then return ()
    else throw e

/-- Makes the first directory of a list, and before it those of the rest that are missing. -/
def makeLineage : List Path → IO Unit
  | [] => return ()
  | path :: above => do
    try
      makeDirectory path.text
    catch e =>
      if toFault e = .notFound then
        makeLineage above
        makeDirectory path.text
      else throw e

def list (path : String) : IO (List (String × FileKind)) := do
  let entries ← (← IO.FS.realPath path).readDir
  entries.toList.mapM fun entry => do
    return (entry.fileName, if ← entry.path.isDir then .directory else .file)

def contentOf (path : String) : IO Content :=
  return .ofArray (← IO.FS.readBinFile path).data

def store (path : String) (content : Content) : IO Unit :=
  IO.FS.writeBinFile path ⟨content.toList.toArray⟩

def openFile (path : String) : OpenMode → IO IO.FS.Handle
  | .read => IO.FS.Handle.mk path .read
  | .update => IO.FS.Handle.mk path .readWrite
  | .keep => IO.FS.Handle.mk path .append
  | .replace => IO.FS.Handle.mk path .write

def pathOf (handle : Handle) : Work String := do
  return ((← (← read).get)[handle.id]?.map (·.path)).getD ""

/-- Does something with the file behind a handle. -/
def onFile {α : Type} (handle : Handle) (action : String → IO α) :
    Work (Except SystemFault α) := do
  let path ← pathOf handle
  attempt (action path)

def milliseconds : IO UInt64 := do
  let now ← Std.Time.Timestamp.now
  return .ofNat now.toMillisecondsSinceUnixEpoch.toInt.toNat

/-- Takes or gives up the lock of an open file. -/
def onLock {α : Type} (handle : Handle) (missing : α) (action : IO.FS.Handle → IO α) :
    Work α := do
  match (← (← read).get)[handle.id]? with
  | none => return missing
  | some opened => action opened.file

def answer : (call : Call) → Work call.Reply
  | .probe path => kind? path.text
  | .makeDirectories path => attempt (makeLineage path.lineage)
  | .list path => attempt (list path.text)
  | .removeFile path => attempt (IO.FS.removeFile path.text)
  | .rename source target => attempt (IO.FS.rename source.text target.text)
  | .openFile path mode => do
    match ← attempt (openFile path.text mode) with
    | .error fault => return .error fault
    | .ok file => do
      let files ← read
      let id := (← files.get).size
      files.modify (·.push { path := path.text, file })
      return .ok ⟨id⟩
  | .size handle => do
    match ← onFile handle contentOf with
    | .ok content => return (content.size : Nat)
    | .error _ => return (4096 : Nat)
  | .read handle offset count => onFile handle fun path =>
    return (← contentOf path).slice offset count
  | .write handle offset data => onFile handle fun path => do
    store path ((← contentOf path).overwritten offset data)
  | .append handle data => onFile handle fun path => do
    let file ← IO.FS.Handle.mk path .append
    file.write (ByteArray.mk data.toArray)
    file.flush
  | .resize handle size => onFile handle fun path => do
    store path ((← contentOf path).resized size)
  | .sync handle => onFile handle fun _ => return ()
  | .lock handle => onLock handle (.error .notFound) fun file => do
    match ← attempt (file.tryLock true) with
    | .ok true => return .ok ()
    | .ok false => return .error .wouldBlock
    | .error fault => return .error fault
  | .unlock handle => onLock handle () fun file => file.unlock
  | .report message => IO.eprintln ("FROM DATABASE LOG: " ++ message)
  | .clock => milliseconds

end OrderedStore.Machine

/-- Runs the command line that the arguments make up. -/
def main (arguments : List String) : IO UInt32 := do
  let files ← IO.mkRef #[]
  let outcome ← (OrderedStore.Script.interpret OrderedStore.Machine.answer
    (OrderedStore.CommandLine.run arguments)).run files
  IO.print outcome.stdout
  IO.eprint outcome.stderr
  return outcome.code.toUInt32
