import OrderedStore.Engine

/-!
# Stores

A store serves keys through a live handle of whichever engine its selector opened. Flushing closes
the handle and opens another one; closing gives the handle up for good. The generation of a store
counts the handles that were given up, so that batches and cursors can tell whether the handle they
were made under is still the live one.

Main definitions:

- `Store.connect`, `Store.flush`, `Store.close`, `Store.dispose`: the life of a store.
- `Store.current`: the handle that a call may use, if it may.

What is left out of the program that is modelled:

- the native engine, which wraps a library of its own. `Engine.native` is what a build without it
  has in its place, and what is said of stores is said of engines of any kind;
- the locks by which threads take turns: calls are made one after the other here;
- the events that are traced for a developer; what the user is shown is a call (`Call.report`);
- the memory of the machine: a buffer may have any capacity, also one that could not be allocated;
- the end of the generations, which are counted in 64 bits there. The generation of a store is
  never larger than the number of its handles (`Desk.Numbered`), so the count is the same for the
  first 2^64 of them.
-/

namespace OrderedStore

/-- A store, its handle and its history. -/
structure Store (m : Type → Type) (H : Type) where
  config : Config
  selector : Selector m H
  /-- The handle in use; `none` after closing, and after a flush that could not open another. -/
  live : Option (Live H)
  /-- The number of handles that were given up, without the bound of a machine word. -/
  generation : Nat := 0
  /-- Whether the store was closed by its user, who cannot open it again. -/
  closed : Bool := false

namespace Store

variable {m : Type → Type} {H α : Type} [Monad m] [Backend m H]

def connect (config : Config) (selector : Selector m H) : m (Except Error (Store m H)) := do
  match config.validate with
  | .error fault => return .error (.config fault)
  | .ok () =>
    match ← selector.connect config with
    | .error e => return .error e
    | .ok live => return .ok { config, selector, live := some live }

/-- The handle for a call. A call made on behalf of a generation may only use the handle of that
generation. -/
def current (store : Store m H) (generation? : Option Nat) : Except Error (Live H) :=
  match generation?, store.live with
  | none, some live => .ok live
  | none, none => .error .closed
  | some generation, some live =>
    if generation = store.generation then .ok live else .error .staleHandle
  | some _, none => .error .staleHandle

def ask (store : Store m H) (generation? : Option Nat) (question : H → m (Except Error α)) :
    m (Except Error α) :=
  match store.current generation? with
  | .error e => return .error e
  | .ok live => question live.handle

def change (store : Store m H) (generation? : Option Nat)
    (action : H → m (Except Error Unit × H)) : m (Except Error Unit × Store m H) :=
  match store.current generation? with
  | .error e => return (.error e, store)
  | .ok live => do
    let (result, handle) ← action live.handle
    return (result, { store with live := some { live with handle } })

def liveGeneration (store : Store m H) : Except Error Nat :=
  match store.live with
  | some _ => .ok store.generation
  | none => .error .closed

/-- Whether the handle of a generation is the live one. -/
def isCurrent (store : Store m H) (generation : Nat) : Bool :=
  store.live.isSome && store.generation = generation

def isOpen (store : Store m H) : Bool :=
  store.live.isSome

def engineKind? (store : Store m H) : Option EngineKind :=
  store.live.map (·.kind)

def get (store : Store m H) (key : Bytes) : m (Except Error (Option Bytes)) :=
  store.ask none (Backend.get · key)

def put (store : Store m H) (key value : Bytes) : m (Except Error Unit × Store m H) :=
  store.change none (Backend.put · key value)

def remove (store : Store m H) (key : Bytes) : m (Except Error Unit × Store m H) :=
  store.change none (Backend.delete · key)

/-- Closes the live handle, if there is one, and opens another. That the old handle could not be
closed in good order is not an error; without a new handle the store stays open for another
attempt. -/
def flush (store : Store m H) : m (Except Error Unit × Store m H) := do
  if store.closed then return (.error .closed, store)
  else
    let store ← match store.live with
      | none => pure store
      | some live => do
        -- The handle is gone whether or not it could be closed in good order.
        let _ ← Backend.close live.handle
        pure { store with live := none, generation := store.generation + 1 }
    match ← store.selector.connect store.config with
    | .error e => return (.error e, store)
    | .ok live => return (.ok (), { store with live := some live })

/-- What a handle is called where its release fails. -/
def handleName : String :=
  "backend handle"

/-- Closes the store for good. Closing it again does nothing. -/
def close (store : Store m H) : m (Except Error Unit × Store m H) := do
  match store.live with
  | none => return (.ok (), { store with closed := true })
  | some live => do
    let result ← Backend.close live.handle
    return (result.mapError (.resourceRelease handleName),
      { store with closed := true, live := none, generation := store.generation + 1 })

/-- Closes the live handle of a store that nothing refers to any more. -/
def dispose (store : Store m H) : m Unit := do
  match store.live with
  | none => return ()
  | some live => do
    let _ ← Backend.close live.handle

end Store

end OrderedStore
