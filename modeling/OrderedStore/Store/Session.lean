import OrderedStore.Dictionary
import OrderedStore.Store.Batch
import OrderedStore.Store.Cursor

/-!
# Sessions

A session holds stores, batches and cursors under names. Several names may refer to one store, and
the batches and cursors of a store refer to it too; a store is closed when nothing refers to it any
more. An object that takes over a name puts an end to the one that had it.

A question about a name that nothing has is answered with `none`.
-/

namespace OrderedStore

/-- Named stores, batches and cursors. -/
structure Session (m : Type → Type) (H : Type) where
  /-- The stores that something refers to, by number. -/
  shared : Dictionary Nat (Store m H) := .empty
  /-- A number above those of all stores. -/
  fresh : Nat := 0
  stores : Dictionary String Nat := .empty
  /-- The batches, each with its store. -/
  batches : Dictionary String (Nat × Batch) := .empty
  cursors : Dictionary String (Nat × Cursor) := .empty

namespace Session

variable {m : Type → Type} {H α : Type}

def refersTo (session : Session m H) (id : Nat) : Bool :=
  (session.stores.entries.any fun (_, store) => store = id) ||
    (session.batches.entries.any fun (_, store, _) => store = id) ||
    (session.cursors.entries.any fun (_, store, _) => store = id)

/-- The store that a name refers to, with its number. -/
def store? (session : Session m H) (name : String) : Option (Nat × Store m H) :=
  match session.stores.find? name with
  | none => none
  | some id => (session.shared.find? id).map (id, ·)

def batch? (session : Session m H) (name : String) : Option (Nat × Batch × Store m H) :=
  match session.batches.find? name with
  | none => none
  | some (id, batch) => (session.shared.find? id).map (id, batch, ·)

def cursor? (session : Session m H) (name : String) : Option (Nat × Cursor × Store m H) :=
  match session.cursors.find? name with
  | none => none
  | some (id, cursor) => (session.shared.find? id).map (id, cursor, ·)

def setStore (session : Session m H) (id : Nat) (store : Store m H) : Session m H :=
  { session with shared := session.shared.insert id store }

variable [Monad m] [Backend m H]

/-- Closes the stores among the given ones that nothing refers to. -/
def disposeOf (session : Session m H) : List (Nat × Store m H) → m (Session m H)
  | [] => return session
  | (id, store) :: rest => do
    if session.refersTo id then session.disposeOf rest
    else do
      store.dispose
      { session with shared := session.shared.erase id }.disposeOf rest

/-- Closes the stores that nothing refers to. -/
def tidy (session : Session m H) : m (Session m H) :=
  session.disposeOf session.shared.entries

/-- Opens a store under a name, after the store that had the name was let go. -/
def connect (session : Session m H) (name : String) (config : Config) (selector : Selector m H) :
    m (Except Error (Store m H) × Session m H) := do
  -- The store that had the name may have to be closed before its directory can be opened again.
  let session ← { session with stores := session.stores.erase name }.tidy
  match ← Store.connect config selector with
  | .error e => return (.error e, session)
  | .ok store =>
    let id := session.fresh
    return (.ok store,
      { session.setStore id store with fresh := id + 1, stores := session.stores.insert name id })

/-- Makes another name refer to the store of a name. -/
def share (session : Session m H) (name other : String) : m (Option Unit × Session m H) := do
  match session.stores.find? name with
  | none => return (none, session)
  | some id => return (some (), ← { session with stores := session.stores.insert other id }.tidy)

def release (session : Session m H) (name : String) : m (Option Unit × Session m H) := do
  match session.stores.find? name with
  | none => return (none, session)
  | some _ => return (some (), ← { session with stores := session.stores.erase name }.tidy)

def ask (session : Session m H) (name : String) (question : Store m H → m α) :
    m (Option α) := do
  match session.store? name with
  | none => return none
  | some (_, store) => return some (← question store)

def onStore (session : Session m H) (name : String)
    (action : Store m H → m (α × Store m H)) : m (Option α × Session m H) := do
  match session.store? name with
  | none => return (none, session)
  | some (id, store) => do
    let (value, store) ← action store
    return (some value, session.setStore id store)

def beginBatch (session : Session m H) (storeName batchName : String) :
    m (Option (Except Error Unit) × Session m H) := do
  match session.store? storeName with
  | none => return (none, session)
  | some (id, store) =>
    match store.batch with
    | .error e => return (some (.error e), session)
    | .ok batch =>
      return (some (.ok ()),
        ← { session with batches := session.batches.insert batchName (id, batch) }.tidy)

def updateBatch (session : Session m H) (name : String) (update : Batch → Batch) :
    Option Batch × Session m H :=
  match session.batches.find? name with
  | none => (none, session)
  | some (id, batch) =>
    let batch := update batch
    (some batch, { session with batches := session.batches.insert name (id, batch) })

/-- Commits a batch, which is used up whether that succeeds or not. -/
def commitBatch (session : Session m H) (name : String) :
    m (Option (Except Error Unit) × Session m H) := do
  match session.batch? name with
  | none => return (none, session)
  | some (id, batch, store) => do
    let (result, store) ← batch.commit store
    let session := session.setStore id store
    return (some result, ← { session with batches := session.batches.erase name }.tidy)

def dropBatch (session : Session m H) (name : String) : m (Option Unit × Session m H) := do
  match session.batches.find? name with
  | none => return (none, session)
  | some _ => return (some (), ← { session with batches := session.batches.erase name }.tidy)

def search (session : Session m H) (storeName cursorName : String) (start : Bytes) :
    m (Option (Except Error Unit) × Session m H) := do
  match session.store? storeName with
  | none => return (none, session)
  | some (id, store) =>
    match store.search start with
    | .error e => return (some (.error e), session)
    | .ok cursor =>
      return (some (.ok ()),
        ← { session with cursors := session.cursors.insert cursorName (id, cursor) }.tidy)

def onCursor (session : Session m H) (name : String)
    (action : Cursor → Store m H → m (α × Cursor × Store m H)) :
    m (Option α × Session m H) := do
  match session.cursor? name with
  | none => return (none, session)
  | some (id, cursor, store) => do
    let (value, cursor, store) ← action cursor store
    let session := session.setStore id store
    return (some value, { session with cursors := session.cursors.insert name (id, cursor) })

/-- Moves a cursor, which leaves its store as it is. -/
def moveCursor (session : Session m H) (name : String)
    (move : Cursor → Store m H → m (α × Cursor)) : m (Option α × Session m H) :=
  session.onCursor name fun cursor store => do
    let (value, cursor) ← move cursor store
    return (value, cursor, store)

def dropCursor (session : Session m H) (name : String) : m (Option Unit × Session m H) := do
  match session.cursors.find? name with
  | none => return (none, session)
  | some _ => return (some (), ← { session with cursors := session.cursors.erase name }.tidy)

end Session

end OrderedStore
