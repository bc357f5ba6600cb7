import OrderedStore.Engine

/-!
# The native engine

The engine that stands first in the order of preference. It wraps a library of its own and is not
part of this build, so it is never available.
-/

namespace OrderedStore

/-- The engine that cannot be opened. -/
def Engine.native {m : Type → Type} {H : Type} [Monad m] : Engine m H where
  kind := .native
  connect _ := return .error (.engineUnavailable .notBuilt)

end OrderedStore
