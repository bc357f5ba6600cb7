import OrderedStore.Engine.Memory
import OrderedStore.Engine.Native
import OrderedStore.Engine.Portable
import OrderedStore.Host.Memory

/-!
# Engines by name

A world holds a host in memory and engines under names, some real and some simulated. Stores in a
world use these engines, and different stores may share one.
-/

namespace OrderedStore

inductive InstalledEngine where
  | native
  | portable
  | memory (engine : MemoryEngine)
  | failing (engine : FailingEngine)

def InstalledEngine.kind : InstalledEngine → EngineKind
  | .native => .native
  | .portable => .portable
  | .memory engine => engine.kind
  | .failing engine => engine.kind

/-- A host and named engines. -/
structure World where
  host : Host := .empty
  engines : Dictionary String InstalledEngine := .empty

/-- A handle of some engine of a world. -/
inductive WorldHandle where
  | portable (store : Portable)
  /-- A handle of the engine in memory with this name, and its kind. -/
  | memory (name : String) (kind : EngineKind)

namespace World

def onHost {α : Type} (script : Script α) : StateM World α := fun world =>
  let (value, host) := script.run world.host
  (value, { world with host })

def onMemory {α : Type} (name : String) (missing : α)
    (action : MemoryEngine → α × MemoryEngine) : StateM World α := fun world =>
  match world.engines.find? name with
  | some (.memory engine) =>
    let (value, engine) := action engine
    (value, { world with engines := world.engines.insert name (.memory engine) })
  | _ => (missing, world)

def connectPortable (config : Config) : StateM World (Except Error WorldHandle) := do
  return (← onHost (Engine.portable.connect config)).map .portable

def connect (name : String) (config : Config) : StateM World (Except Error WorldHandle) := do
  match (← get).engines.find? name with
  | some .portable => connectPortable config
  | some (.memory engine) =>
    return (← onMemory name (.error .closed) MemoryEngine.connect).map fun () =>
      .memory name engine.kind
  | some (.failing engine) => do
    let (error, engine) := engine.connect
    modify fun world => { world with engines := world.engines.insert name (.failing engine) }
    return .error error
  | some .native | none => return .error (.engineUnavailable .notBuilt)

/-- The engine with the given name, if there is one. -/
def engine? (world : World) (name : String) : Option (Engine (StateM World) WorldHandle) :=
  (world.engines.find? name).map fun installed => ⟨installed.kind, connect name⟩

/-- The native engine first, then the portable one. -/
def defaultSelector : Selector (StateM World) WorldHandle where
  preferred := Engine.native
  fallback := ⟨.portable, connectPortable⟩

/-- Does something with a portable handle and gives back the handle that it leaves. -/
def onPortable {α : Type} (script : Script (α × Portable)) : StateM World (α × WorldHandle) := do
  let (value, store) ← onHost script
  return (value, .portable store)

instance : Backend (StateM World) WorldHandle where
  kind
    | .portable store => Backend.kind Script store
    | .memory _ kind => kind
  get
    | .portable store, key => onHost (Backend.get store key)
    | .memory name _, key =>
      onMemory name (.error .closed) fun engine => (.ok (engine.get key), engine)
  put
    | .portable store, key, value => onPortable (Backend.put store key value)
    | .memory name kind, key, value => do
      let done ← onMemory name (.error .closed) fun engine =>
        (.ok (), engine.apply (.put key value))
      return (done, .memory name kind)
  delete
    | .portable store, key => onPortable (Backend.delete store key)
    | .memory name kind, key => do
      let done ← onMemory name (.error .closed) fun engine =>
        (.ok (), engine.apply (.delete key))
      return (done, .memory name kind)
  write
    | .portable store, batch => onPortable (Backend.write store batch)
    | .memory name kind, batch => do
      let done ← onMemory name (.error .closed) (·.write batch)
      return (done, .memory name kind)
  scan
    | .portable store, start, limit => onHost (Backend.scan store start limit)
    | .memory name _, start, limit =>
      onMemory name (.error .closed) fun engine => (.ok (engine.scan start limit), engine)
  close
    | .portable store => onHost (Backend.close store)
    | .memory name _ => onMemory name (.error .closed) MemoryEngine.close
  abandon
    | .portable store => onHost (Backend.abandon store)
    | .memory _ _ => return ()

end World

end OrderedStore
