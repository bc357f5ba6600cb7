import OrderedStore.Config

/-!
# Scripts

Everything the library does outside its own memory is a call to the host: file operations, an
advisory lock, messages, the clock. A script is a computation that makes such calls; it says which
calls are made and what is done with the replies, and leaves open what the calls do. An in-memory
host runs it as a function on its state, a program runs it on real files, and a study of failures
may stop it between any two calls or refuse some of them.

Main definitions:

- `Call`, `Call.Reply`: the calls, and what each is answered with.
- `Script`: computations that make calls.
- `Action`: scripts that may fail with an `Error`.
-/

namespace OrderedStore

/-- An open file or directory. -/
structure Handle where
  /-- The number under which the host knows it. -/
  id : Nat
deriving DecidableEq

inductive FileKind where
  | file
  | directory
deriving DecidableEq

/-- How a file is opened. -/
inductive OpenMode where
  /-- For reading; directories can be opened, but not read. -/
  | read
  /-- For writing; the file has to be there. -/
  | update
  /-- For writing; the file is made if missing, and keeps what it holds. -/
  | keep
  /-- For writing; the file is made if missing, and emptied. -/
  | replace
deriving DecidableEq

/-- A call to the host. -/
inductive Call where
  | probe (path : Path)
  /-- Makes a directory and those above it, of which some may be made even if the call fails. -/
  | makeDirectories (path : Path)
  | list (path : Path)
  | removeFile (path : Path)
  /-- Gives a file or directory another name, in place of the file that had it. -/
  | rename (source target : Path)
  | openFile (path : Path) (mode : OpenMode)
  | size (handle : Handle)
  /-- Up to `count` bytes from `offset` on, fewer only at the end of the file. An offset that no
  file reaches up to is refused. -/
  | read (handle : Handle) (offset count : Nat)
  /-- Writes in place of what stood from `offset` on. An offset that no file reaches up to is
  refused. -/
  | write (handle : Handle) (offset : Nat) (data : Bytes)
  | append (handle : Handle) (data : Bytes)
  | resize (handle : Handle) (size : Nat)
  | sync (handle : Handle)
  /-- Takes the exclusive advisory lock of a file, without waiting. -/
  | lock (handle : Handle)
  | unlock (handle : Handle)
  | report (message : String)
  | clock

abbrev Call.Reply : Call → Type
  | .probe _ => Option FileKind
  | .makeDirectories _ => Except SystemFault Unit
  | .list _ => Except SystemFault (List (String × FileKind))
  | .removeFile _ => Except SystemFault Unit
  | .rename _ _ => Except SystemFault Unit
  | .openFile _ _ => Except SystemFault Handle
  | .size _ => Nat
  | .read _ _ _ => Except SystemFault Bytes
  | .write _ _ _ => Except SystemFault Unit
  | .append _ _ => Except SystemFault Unit
  | .resize _ _ => Except SystemFault Unit
  | .sync _ => Except SystemFault Unit
  | .lock _ => Except SystemFault Unit
  | .unlock _ => Unit
  | .report _ => Unit
  | .clock => UInt64

/-- A computation that makes calls to the host. -/
inductive Script (α : Type) where
  | done (value : α)
  | step (call : Call) (next : call.Reply → Script α)

namespace Script

variable {α β : Type}

protected def bind : Script α → (α → Script β) → Script β
  | .done value, f => f value
  | .step call next, f => .step call fun reply => (next reply).bind f

instance : Monad Script where
  pure := .done
  bind := Script.bind

def call (c : Call) : Script c.Reply :=
  .step c .done

/-- Runs a script on a host that answers calls in a monad. -/
def interpret {m : Type → Type} [Monad m] (answer : (c : Call) → m c.Reply) :
    Script α → m α
  | .done value => pure value
  | .step c next => do
    let reply ← answer c
    interpret answer (next reply)

@[simp]
theorem pure_eq_done (value : α) : (pure value : Script α) = .done value :=
  rfl

@[simp]
theorem bind_done (value : α) (f : α → Script β) : (Script.done value >>= f) = f value :=
  rfl

@[simp]
theorem bind_step (c : Call) (next : c.Reply → Script α) (f : α → Script β) :
    (Script.step c next >>= f) = .step c fun reply => next reply >>= f :=
  rfl

theorem bind_done_right (script : Script α) : script >>= Script.done = script := by
  induction script with
  | done value => rfl
  | step c next ih =>
    rw [bind_step]
    congr 1
    funext reply
    exact ih reply

theorem bind_assoc {γ : Type} (script : Script α) (f : α → Script β) (g : β → Script γ) :
    script >>= f >>= g = script >>= fun value => f value >>= g := by
  induction script with
  | done value => rfl
  | step c next ih =>
    simp only [bind_step]
    congr 1
    funext reply
    exact ih reply

instance : LawfulMonad Script :=
  LawfulMonad.mk' Script bind_done_right (fun _ _ => rfl) bind_assoc

end Script

/-- A script that may fail. -/
abbrev Action (α : Type) :=
  ExceptT Error Script α

namespace Action

variable {α : Type}

def ofScript (script : Script α) : Action α :=
  ExceptT.lift script

/-- Makes a call that the system may refuse. -/
def attempt (script : Script (Except SystemFault α)) : Action α :=
  ExceptT.mk do
    match ← script with
    | .ok value => pure (.ok value)
    | .error fault => pure (.error (.io (.system fault)))

def probe (path : Path) : Action (Option FileKind) :=
  ofScript (Script.call (.probe path))

def makeDirectories (path : Path) : Action Unit :=
  attempt (Script.call (.makeDirectories path))

def list (path : Path) : Action (List (String × FileKind)) :=
  attempt (Script.call (.list path))

def removeFile (path : Path) : Action Unit :=
  attempt (Script.call (.removeFile path))

def rename (source target : Path) : Action Unit :=
  attempt (Script.call (.rename source target))

def openFile (path : Path) (mode : OpenMode) : Action Handle :=
  attempt (Script.call (.openFile path mode))

def size (handle : Handle) : Action Nat :=
  ofScript (Script.call (.size handle))

def read (handle : Handle) (offset count : Nat) : Action Bytes :=
  attempt (Script.call (.read handle offset count))

/-- Exactly `count` bytes from `offset` on. -/
def readExactly (handle : Handle) (offset count : Nat) : Action Bytes := do
  let bytes ← read handle offset count
  if bytes.length < count then throw (.io .endOfFile)
  return bytes

def write (handle : Handle) (offset : Nat) (data : Bytes) : Action Unit :=
  attempt (Script.call (.write handle offset data))

def append (handle : Handle) (data : Bytes) : Action Unit :=
  attempt (Script.call (.append handle data))

def resize (handle : Handle) (size : Nat) : Action Unit :=
  attempt (Script.call (.resize handle size))

def sync (handle : Handle) : Action Unit :=
  attempt (Script.call (.sync handle))

def clock : Action UInt64 :=
  ofScript (Script.call .clock)

def report (message : String) : Action Unit :=
  ofScript (Script.call (.report message))

/-- Runs `cleanup` if `action` fails, and fails the same way. -/
def orElseCleanup (action : Action α) (cleanup : Script Unit) : Action α :=
  ExceptT.mk do
    match ← action.run with
    | .ok value => pure (.ok value)
    | .error e => do
      cleanup
      pure (.error e)

end Action

end OrderedStore
