import OrderedStore.Config
import OrderedStore.Mutation

/-!
# Engines

An engine opens handles, and a handle serves the keys of one directory. A store asks a preferred
engine first, and a second one where the first cannot be opened for a reason of input or output.

Engines work in a monad that is left open: scripts for the real ones, functions on a state for
those that are studied.

Main definitions:

- `Backend`: what can be done with an open handle.
- `Engine`: opens handles.
- `Selector.connect`: opens a handle of one of two engines.
-/

namespace OrderedStore

/-- Which implementation serves a store. -/
inductive EngineKind where
  | native
  | portable
deriving DecidableEq

namespace EngineKind

def name : EngineKind → String
  | .native => "native"
  | .portable => "portable"

def label : EngineKind → String
  | .native => "Native"
  | .portable => "Portable"

end EngineKind

/-- The operations on an open handle of type `H`. Those that change something give back the handle
as it is afterwards. -/
class Backend (m : Type → Type) (H : Type) where
  kind : H → EngineKind
  get : H → (key : Bytes) → m (Except Error (Option Bytes))
  put : H → (key value : Bytes) → m (Except Error Unit × H)
  delete : H → (key : Bytes) → m (Except Error Unit × H)
  /-- Applies all mutations of a batch in order, or none. -/
  write : H → WriteBatch → m (Except Error Unit × H)
  /-- At most `limit` entries from `start` on in ascending order. A page may be short while more
  entries follow; it is empty only if none do. -/
  scan : H → (start : Bytes) → (limit : Nat) → m (Except Error (List (Bytes × Bytes)))
  close : H → m (Except Error Unit)
  /-- Releases the handle as it is. -/
  abandon : H → m Unit

structure Engine (m : Type → Type) (H : Type) where
  kind : EngineKind
  connect : Config → m (Except Error H)

/-- An open handle and the kind of the engine that was asked for it. -/
structure Live (H : Type) where
  handle : H
  kind : EngineKind

/-- Two engines, of which the second stands in for the first. -/
structure Selector (m : Type → Type) (H : Type) where
  preferred : Engine m H
  fallback : Engine m H

namespace Selector

variable {m : Type → Type} {H : Type}

/-- Opens a handle of the preferred engine. If that fails for a reason of input or output, opens one
of the other engine; if that fails too, the error tells of both. -/
def connect [Monad m] (selector : Selector m H) (config : Config) :
    m (Except Error (Live H)) := do
  match ← selector.preferred.connect config with
  | .ok handle => return .ok ⟨handle, selector.preferred.kind⟩
  | .error first =>
    if first.isIoClass then
      match ← selector.fallback.connect config with
      | .ok handle => return .ok ⟨handle, selector.fallback.kind⟩
      | .error second => return .error (.storeOpen first second)
    else return .error first

def describe (selector : Selector m H) : String :=
  "BackendSelector \x7b preferred: " ++ selector.preferred.kind.label ++ ", fallback: " ++
    selector.fallback.kind.label ++ " \x7d"

end Selector

end OrderedStore
