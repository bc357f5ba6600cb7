import OrderedStore.Dictionary
import OrderedStore.Host.Content
import OrderedStore.Host.Script

/-!
# A file tree in memory

Names lead to nodes, and nodes are directories or files with content. An open handle holds the
node, not the name, so it keeps working after its file was renamed or removed. Names appear only
below directories: the operations make a name only where its parent directory is.

A path is followed step by step, and every step but the last has to lead to a directory. What is
done at the end differs: to make, remove or rename something the last step has to be a name.

Main definitions:

- `Disk`: a file tree.
- `Disk.approach`, `Disk.find`: where a path leads, and what stands there.
- `Disk.kind?`, `Disk.content?`: what stands under a path, and the content of a file.
-/

namespace OrderedStore

/-- What a name leads to. -/
inductive Node where
  | directory
  | file (content : Content)

def Node.kind : Node → FileKind
  | .directory => .directory
  | .file _ => .file

/-- A file tree and the place in it where relative paths start. -/
structure Disk where
  /-- Which node stands at a place. -/
  names : Dictionary Location Nat := ⟨[([], 0)]⟩
  /-- The nodes by number. -/
  nodes : Dictionary Nat Node := ⟨[(0, .directory)]⟩
  /-- A number above those of all nodes. -/
  fresh : Nat := 1
  /-- The working directory. -/
  workingDirectory : Location := []

namespace Disk

def empty : Disk :=
  { }

instance : Inhabited Disk :=
  ⟨empty⟩

/-! ## Places -/

def node? (disk : Disk) (place : Location) : Option (Nat × Node) :=
  match disk.names.find? place with
  | none => none
  | some id => (disk.nodes.find? id).map (id, ·)

def kindAt? (disk : Disk) (place : Location) : Option FileKind :=
  (disk.node? place).map (·.2.kind)

def setNode (disk : Disk) (id : Nat) (node : Node) : Disk :=
  { disk with nodes := disk.nodes.insert id node }

def create (disk : Disk) (place : Location) (node : Node) : Disk :=
  { disk with
    names := disk.names.insert place disk.fresh
    nodes := disk.nodes.insert disk.fresh node
    fresh := disk.fresh + 1 }

/-- Takes a name away; handles on its node stay good. -/
def unlink (disk : Disk) (place : Location) : Disk :=
  { disk with names := disk.names.erase place }

def isBare (disk : Disk) (place : Location) : Bool :=
  disk.names.entries.all fun (other, _) => other.dropLast ≠ place ∨ other = []

/-- Moves every name at or below `source` to the same place below `target`. -/
def move (disk : Disk) (source target : Location) : Disk :=
  { disk with names := ⟨(disk.names.erase target).entries.map fun (place, id) =>
      if source.isPrefixOf place then (target ++ place.drop source.length, id) else (place, id)⟩ }

/-! ## Following a path -/

def nameLimit : Nat :=
  255

/-- A path of this many bytes is too long. -/
def pathLimit : Nat :=
  4096

/-- Refuses paths that cannot be followed at all. -/
def checkPath (path : Path) : Except SystemFault Unit :=
  if path.text.toList.contains '\x00' then .error .zeroInPath
  else if path.text = "" then .error .notFound
  else if pathLimit ≤ path.text.utf8ByteSize then .error .nameTooLong
  else .ok ()

/-- Where a step leads from a directory; there is nothing above the top. -/
def stepFrom (directory : Location) : PathStep → Except SystemFault Location
  | .here => .ok directory
  | .up => .ok directory.dropLast
  | .entry name =>
    if nameLimit < name.utf8ByteSize then .error .nameTooLong else .ok (directory ++ [name])

/-- Refuses a place from which no step can be taken. -/
def checkDirectory (disk : Disk) (place : Location) : Except SystemFault Unit :=
  match disk.kindAt? place with
  | some .directory => .ok ()
  | some .file => .error .notDirectory
  | none => .error .notFound

/-- The directory that steps lead to. -/
def walk (disk : Disk) : Location → List PathStep → Except SystemFault Location
  | place, [] => do
    disk.checkDirectory place
    return place
  | place, step :: rest => do
    disk.checkDirectory place
    disk.walk (← stepFrom place step) rest

/-- The directory in which the last step of a path is taken, and this step. -/
def approach (disk : Disk) (path : Path) : Except SystemFault (Location × PathStep) := do
  checkPath path
  let start := if path.absolute then [] else disk.workingDirectory
  let directory ← disk.walk start path.steps.dropLast
  return (directory, path.steps.getLast?.getD .here)

def find (disk : Disk) (path : Path) : Except SystemFault (Location × Nat × Node) := do
  let (directory, step) ← disk.approach path
  let place ← stepFrom directory step
  match disk.node? place with
  | none => .error .notFound
  | some (id, node) =>
    -- A slash at the end asks for a directory.
    if path.trailingSlash ∧ node.kind = .file then .error .notDirectory
    else return (place, id, node)

def kind? (disk : Disk) (path : Path) : Option FileKind :=
  match disk.find path with
  | .ok (_, _, node) => some node.kind
  | .error _ => none

def content? (disk : Disk) (path : Path) : Option Bytes :=
  match disk.find path with
  | .ok (_, _, .file content) => some content.toList
  | _ => none

/-! ## Operations on names -/

def makeDirectory (disk : Disk) (path : Path) : Except SystemFault Disk := do
  let (directory, step) ← disk.approach path
  match step with
  | .here | .up => .error .alreadyExists
  | .entry _ =>
    let place ← stepFrom directory step
    if (disk.node? place).isSome then .error .alreadyExists
    else return disk.create place .directory

/-- The outcome of making a directory that may be there already. -/
def settleDirectory (disk : Disk) (path : Path) :
    Except SystemFault Disk → Except SystemFault Unit × Disk
  | .ok disk => (.ok (), disk)
  | .error fault =>
    if fault = .alreadyExists ∧ disk.kind? path = some .directory then (.ok (), disk)
    else (.error fault, disk)

/-- Makes the first directory of a list, and before it those of the rest that are missing. What was
made stays, even if the first one cannot be made. -/
def makeLineage (disk : Disk) : List Path → Except SystemFault Unit × Disk
  | [] => (.ok (), disk)
  | path :: above =>
    match disk.makeDirectory path with
    -- Only a missing parent is a reason to make those above it and to try again.
    | .error .notFound =>
      match disk.makeLineage above with
      | (.ok (), disk) => disk.settleDirectory path (disk.makeDirectory path)
      | (.error fault, disk) => (.error fault, disk)
    | result => disk.settleDirectory path result

def makeDirectories (disk : Disk) (path : Path) : Except SystemFault Unit × Disk :=
  disk.makeLineage path.lineage

def list (disk : Disk) (path : Path) : Except SystemFault (List (String × FileKind)) := do
  match ← disk.find path with
  | (_, _, .file _) => .error .notDirectory
  | (directory, _, .directory) =>
    return disk.names.entries.filterMap fun (place, _) =>
      match place.getLast?, disk.kindAt? place with
      | some name, some kind => if place.dropLast = directory then some (name, kind) else none
      | _, _ => none

def removeFile (disk : Disk) (path : Path) : Except SystemFault Disk := do
  let (directory, step) ← disk.approach path
  match step with
  | .here | .up => .error .isDirectory
  | .entry _ =>
    let place ← stepFrom directory step
    match disk.node? place with
    | none => .error .notFound
    | some (_, .directory) => .error .isDirectory
    | some (_, .file _) =>
      if path.trailingSlash then .error .notDirectory else return disk.unlink place

/-- Removes a file, or a directory with all it holds. -/
def removeAll (disk : Disk) (path : Path) : Except SystemFault Disk := do
  let (removed, _) ← disk.find path
  return { disk with names := ⟨disk.names.entries.filter fun (place, _) =>
    !removed.isPrefixOf place⟩ }

/-- Gives what stands at a place another name, in place of the file or bare directory that had
it. -/
def renameAt (disk : Disk) (source target : Location) (kind : FileKind) :
    Except SystemFault Disk :=
  if source = target then .ok disk
  else
    match kind, disk.kindAt? target with
    | _, none => .ok (disk.move source target)
    | .file, some .file => .ok (disk.move source target)
    | .file, some .directory => .error .isDirectory
    | .directory, some .file => .error .notDirectory
    -- A directory takes the place of another one only if nothing stands in that.
    | .directory, some .directory =>
      if disk.isBare target then .ok (disk.move source target) else .error .notEmpty

/-- Gives a file or directory another name. Nothing can be moved into itself, or in place of a
directory that holds it. -/
def rename (disk : Disk) (source target : Path) : Except SystemFault Disk := do
  if target.text.toList.contains '\x00' then .error .zeroInPath
  else
    let (sourceDirectory, sourceStep) ← disk.approach source
    let (targetDirectory, targetStep) ← disk.approach target
    match sourceStep, targetStep with
    | .entry _, .entry _ =>
      let sourcePlace ← stepFrom sourceDirectory sourceStep
      match disk.kindAt? sourcePlace with
      | none => .error .notFound
      | some kind =>
        let targetPlace ← stepFrom targetDirectory targetStep
        if kind = .file ∧ (source.trailingSlash ∨ target.trailingSlash) then .error .notDirectory
        -- The first would move a directory into itself, the second would cover the source.
        else if sourcePlace.isPrefixOf targetDirectory then .error .invalidArgument
        else if targetPlace.isPrefixOf sourceDirectory then .error .notEmpty
        else disk.renameAt sourcePlace targetPlace kind
    | _, _ => .error .busy

/-! ## Operations on files -/

/-- Opens a file that is made if it is missing, and emptied if it is to be replaced. -/
def openOrCreate (disk : Disk) (path : Path) (replace : Bool) :
    Except SystemFault (Handle × Disk) := do
  let (directory, step) ← disk.approach path
  match step, path.trailingSlash with
  | .entry _, false =>
    let place ← stepFrom directory step
    match disk.node? place with
    -- The new file gets the next number, which is the one of its handle.
    | none => return (⟨disk.fresh⟩, disk.create place (.file .empty))
    | some (_, .directory) => .error .isDirectory
    | some (id, .file _) => return (⟨id⟩, if replace then disk.setNode id (.file .empty) else disk)
  | _, _ => .error .isDirectory

def openFile (disk : Disk) (path : Path) (mode : OpenMode) :
    Except SystemFault Handle × Disk :=
  let opened : Except SystemFault (Handle × Disk) :=
    match mode with
    | .read => (disk.find path).map fun (_, id, _) => (⟨id⟩, disk)
    | .update => do
      match ← disk.find path with
      | (_, _, .directory) => .error .isDirectory
      | (_, id, .file _) => return (⟨id⟩, disk)
    | .keep => disk.openOrCreate path false
    | .replace => disk.openOrCreate path true
  match opened with
  | .ok (handle, disk) => (.ok handle, disk)
  | .error fault => (.error fault, disk)

/-- The largest size of a file: 4096 bytes for every number of a block. -/
def sizeLimit : Nat :=
  0xFFFFFFFF * 4096

def contentOf (disk : Disk) (handle : Handle) : Except SystemFault Content :=
  match disk.nodes.find? handle.id with
  | some (.file content) => .ok content
  | some .directory => .error .isDirectory
  | none => .error .notFound

def read (disk : Disk) (handle : Handle) (offset count : Nat) : Except SystemFault Bytes := do
  if sizeLimit < offset then .error .invalidArgument
  else return (← disk.contentOf handle).slice offset count

/-- Changes the content of an open file, unless the size that it would get is too large. -/
def modify (disk : Disk) (handle : Handle) (size : Content → Nat) (change : Content → Content) :
    Except SystemFault Unit × Disk :=
  match disk.contentOf handle with
  | .error fault => (.error fault, disk)
  | .ok content =>
    if sizeLimit < size content then (.error .fileTooLarge, disk)
    else (.ok (), disk.setNode handle.id (.file (change content)))

def write (disk : Disk) (handle : Handle) (offset : Nat) (data : Bytes) :
    Except SystemFault Unit × Disk :=
  if sizeLimit < offset then (.error .invalidArgument, disk)
  else disk.modify handle (max ·.size (offset + data.length)) (·.overwritten offset data)

def append (disk : Disk) (handle : Handle) (data : Bytes) : Except SystemFault Unit × Disk :=
  disk.modify handle (·.size + data.length) (· ++ .ofArray data.toArray)

def resize (disk : Disk) (handle : Handle) (size : Nat) : Except SystemFault Unit × Disk :=
  disk.modify handle (fun _ => size) (·.resized size)

/-- The size that a directory is said to have. -/
def directorySize : Nat :=
  4096

def sizeOf (disk : Disk) (handle : Handle) : Nat :=
  match disk.contentOf handle with
  | .ok content => content.size
  | .error _ => directorySize

end Disk

end OrderedStore
