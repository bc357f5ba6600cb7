import OrderedStore.Host.Disk

/-!
# A host in memory

A host whose files are a `Disk`. `Host.answer` says what every call does to it; `Script.run` runs a
whole script.
-/

namespace OrderedStore

/-- A host in memory. -/
structure Host where
  disk : Disk := .empty
  /-- The nodes whose advisory lock is taken. -/
  locked : List Nat := []
  /-- The messages shown to the user, newest first. -/
  messages : List String := []
  now : UInt64 := 0
  /-- How many bytes of a file, by the number of its node, were there when it was last forced to
  disk and were not cut off since. -/
  forced : Dictionary Nat Nat := .empty

namespace Host

def empty : Host :=
  { }

instance : Inhabited Host :=
  ⟨empty⟩

/-- Replaces the disk by the outcome of a file operation, unless it failed. -/
def withDisk (host : Host) : Except SystemFault Disk → Except SystemFault Unit × Host
  | .ok disk => (.ok (), { host with disk })
  | .error fault => (.error fault, host)

def settle {α : Type} (host : Host) : α × Disk → α × Host
  | (reply, disk) => (reply, { host with disk })

/-- How many bytes of an open file are on disk for sure. -/
def forcedSize (host : Host) (handle : Handle) : Nat :=
  (host.forced.find? handle.id).getD 0

def setForced (host : Host) (handle : Handle) (size : Nat) : Host :=
  { host with forced := host.forced.insert handle.id size }

/-- Puts in place the disk on which a file was cut to a size or extended to it. -/
def settleCut {α : Type} (host : Host) (handle : Handle) (size : Nat) :
    Except SystemFault α × Disk → Except SystemFault α × Host
  | (.ok value, disk) =>
    (.ok value, { host with disk }.setForced handle (min size (host.forcedSize handle)))
  | (.error fault, disk) => (.error fault, { host with disk })

/-- Puts in place the disk on which a file was opened. -/
def settleOpened (host : Host) (mode : OpenMode) :
    Except SystemFault Handle × Disk → Except SystemFault Handle × Host
  | (.ok handle, disk) =>
    if mode = .replace then host.settleCut handle 0 (.ok handle, disk)
    else (.ok handle, { host with disk })
  | (.error fault, disk) => (.error fault, { host with disk })

def answer (host : Host) : (call : Call) → call.Reply × Host
  | .probe path => (host.disk.kind? path, host)
  | .makeDirectories path => host.settle (host.disk.makeDirectories path)
  | .list path => (host.disk.list path, host)
  | .removeFile path => host.withDisk (host.disk.removeFile path)
  | .rename source target => host.withDisk (host.disk.rename source target)
  | .openFile path mode => host.settleOpened mode (host.disk.openFile path mode)
  | .size handle => (host.disk.sizeOf handle, host)
  | .read handle offset count => (host.disk.read handle offset count, host)
  | .write handle offset data => host.settle (host.disk.write handle offset data)
  | .append handle data => host.settle (host.disk.append handle data)
  | .resize handle size => host.settleCut handle size (host.disk.resize handle size)
  -- All bytes of the file survive a loss of power from here on.
  | .sync handle => (.ok (), host.setForced handle (host.disk.sizeOf handle))
  | .lock handle =>
    if handle.id ∈ host.locked then (.error .wouldBlock, host)
    else (.ok (), { host with locked := handle.id :: host.locked })
  | .unlock handle => ((), { host with locked := host.locked.filter (· ≠ handle.id) })
  | .report message => ((), { host with messages := message :: host.messages })
  | .clock => (host.now, host)

end Host

/-- Runs a script on a host in memory. -/
def Script.run {α : Type} : Script α → Host → α × Host
  | .done value, host => (value, host)
  | .step call next, host =>
    let (reply, host) := host.answer call
    (next reply).run host

def Action.perform {α : Type} (action : Action α) (host : Host) : Except Error α × Host :=
  Script.run (ExceptT.run action) host

@[simp]
theorem Script.run_done {α : Type} (value : α) (host : Host) :
    (Script.done value).run host = (value, host) :=
  rfl

theorem Script.run_bind {α β : Type} (script : Script α) (f : α → Script β) (host : Host) :
    (script >>= f).run host = (f (script.run host).1).run (script.run host).2 := by
  induction script generalizing host with
  | done value => rfl
  | step call next ih =>
    rw [Script.bind_step]
    simp only [Script.run]
    exact ih _ _

end OrderedStore
