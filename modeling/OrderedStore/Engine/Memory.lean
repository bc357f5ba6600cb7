import OrderedStore.Engine
import OrderedStore.KeyMap

/-!
# An engine in memory

The plainest engine: a map. What it holds survives closing and opening again. It counts its opens
and closes, and can be told to fail, so that stores can be studied under failures.
-/

namespace OrderedStore

/-- A map that serves as an engine. -/
structure MemoryEngine where
  kind : EngineKind := .portable
  content : KeyMap Bytes := .empty
  opens : Nat := 0
  closes : Nat := 0
  failClose : Bool := false
  failWrite : Bool := false
  /-- Which attempt to open it fails, counted from 1. -/
  failOpenAt : Option Nat := none

namespace MemoryEngine

def mutate (content : KeyMap Bytes) : Mutation → KeyMap Bytes
  | .put key value => content.insert key value
  | .delete key => content.erase key

def connect (engine : MemoryEngine) : Except Error Unit × MemoryEngine :=
  let attempt := engine.opens + 1
  let engine := { engine with opens := attempt }
  if engine.failOpenAt = some attempt then
    (.error (.io (.other "simulated open failure")), engine)
  else (.ok (), engine)

def get (engine : MemoryEngine) (key : Bytes) : Option Bytes :=
  engine.content.find? key

def apply (engine : MemoryEngine) (mutation : Mutation) : MemoryEngine :=
  { engine with content := mutate engine.content mutation }

def write (engine : MemoryEngine) (batch : WriteBatch) : Except Error Unit × MemoryEngine :=
  if engine.failWrite then (.error (.io (.other "simulated write failure")), engine)
  else (.ok (), { engine with content := batch.toList.foldl mutate engine.content })

/-- The first `limit` entries from `start` on. -/
def scan (engine : MemoryEngine) (start : Bytes) (limit : Nat) : List (Bytes × Bytes) :=
  (engine.content.entriesFrom start).take limit

def close (engine : MemoryEngine) : Except Error Unit × MemoryEngine :=
  let engine := { engine with closes := engine.closes + 1 }
  if engine.failClose then (.error (.io (.other "simulated close failure")), engine)
  else (.ok (), engine)

end MemoryEngine

/-- An engine that cannot be opened and counts the attempts. -/
structure FailingEngine where
  kind : EngineKind := .native
  /-- What every attempt fails with. -/
  error : Error := .engineUnavailable (.other "simulated missing native support")
  attempts : Nat := 0

def FailingEngine.connect (engine : FailingEngine) : Error × FailingEngine :=
  (engine.error, { engine with attempts := engine.attempts + 1 })

end OrderedStore
