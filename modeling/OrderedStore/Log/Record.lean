import OrderedStore.Mutation

/-!
# Log records

A record of the log is an operation with the sequence number it was given and the time at which it
was logged. An operation is a single mutation, or a batch of mutations that is replayed as a whole.
-/

namespace OrderedStore.Log

/-- What is logged at once. -/
inductive Operation where
  | one (mutation : Mutation)
  | batch (mutations : List Mutation)
deriving DecidableEq

def Operation.mutations : Operation → List Mutation
  | .one mutation => [mutation]
  | .batch mutations => mutations

/-- One record of the log. -/
structure Record where
  lsn : UInt64
  operation : Operation
  /-- When the record was made, in milliseconds since 1970. -/
  timestamp : UInt64
deriving DecidableEq

end OrderedStore.Log
