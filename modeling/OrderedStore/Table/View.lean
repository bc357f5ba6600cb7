import OrderedStore.Checksum
import OrderedStore.Host.Script
import OrderedStore.Table.Layout

/-!
# Reading a table

An open table keeps the offset of every key and reads entries from the file when asked. The index
is not covered by the checksum, so offsets and lengths are taken as they come: reading ends with an
error where they lead out of the file.
-/

namespace OrderedStore

/-- An open table file. -/
structure Table where
  path : Path
  handle : Handle
  layout : Table.Layout

namespace Table

/-- Takes the next bytes of a file into a checksum register, in chunks of the capacity of a buffer,
or of one byte if it has none. Every chunk holds some byte, so the number of bytes bounds the number
of chunks. -/
def feedChunks (handle : Handle) (capacity : Nat) :
    (chunks : Nat) → (register : UInt32) → (offset remaining : Nat) → Action UInt32
  | 0, register, _, _ => return register
  | chunks + 1, register, offset, remaining => do
    if remaining = 0 then return register
    else
      let size := min remaining (max capacity 1)
      let chunk ← Action.readExactly handle offset size
      feedChunks handle capacity chunks (Checksum.feed register chunk) (offset + size)
        (remaining - size)

/-- Checks the data of a table file of `size` bytes and reads its index. -/
def readLayout (file : String) (handle : Handle) (capacity size : Nat) (ends : Ends) :
    Action Layout := do
  let dataSize := ends.dataEnd - headerSize
  let register ← feedChunks handle capacity dataSize Checksum.start headerSize dataSize
  if (Checksum.finish register).toNat ≠ ends.checksum then throw (.storage (.dataChecksum file))
  let index ← Action.readExactly handle ends.dataEnd (size - footerSize - ends.dataEnd)
  match Layout.ofIndex file ends index with
  | .error fault => throw (.storage fault)
  | .ok layout => return layout

/-- Opens and checks a table file, through a buffer of some capacity. Header and footer come first,
so that a file which is no table is refused before the bulk of it is read. -/
def start (path : Path) (capacity : Nat := Draft.defaultCapacity) : Action Table := do
  let handle ← Action.openFile path .read
  let size ← Action.size handle
  if size < headerSize + footerSize then throw (.storage (.tooSmall path.text size))
  let header ← Action.readExactly handle 0 headerSize
  let footer ← Action.readExactly handle (size - footerSize) footerSize
  match Ends.read path.text size header footer with
  | .error fault => throw (.storage fault)
  | .ok ends =>
    let layout ← readLayout path.text handle capacity size ends
    return { path, handle, layout }

def minKey? (table : Table) : Option Bytes :=
  table.layout.offsets.minKey?

def maxKey? (table : Table) : Option Bytes :=
  table.layout.offsets.maxKey?

def mightContain (table : Table) (key : Bytes) : Bool :=
  match table.minKey?, table.maxKey? with
  | some low, some high => low ≤ key ∧ key ≤ high
  | _, _ => false

def readLengths (table : Table) (offset : Nat) : Action (Nat × Nat) := do
  let lengths ← Action.readExactly table.handle offset 8
  return (Bytes.ofLittleEndian (lengths.take 4), Bytes.ofLittleEndian (lengths.drop 4))

/-- The value of `length` bytes at an offset; `none` for a tombstone. -/
def readValue (table : Table) (offset length : Nat) : Action (Option Bytes) := do
  if length = tombstoneMark then return none
  else return some (← Action.readExactly table.handle offset length)

/-- What the table says about a key: nothing, a value, or that it was deleted. -/
def find? (table : Table) (key : Bytes) : Action (Option (Option Bytes)) := do
  match table.layout.offsets.find? key with
  | none => return none
  | some offset =>
    let (keyLength, valueLength) ← table.readLengths offset
    return some (← table.readValue (offset + 8 + keyLength) valueLength)

/-- The value of a key, or `none` if it was deleted; a key that is not there is an error. -/
def get (table : Table) (key : Bytes) : Action (Option Bytes) := do
  match ← table.find? key with
  | none => throw .keyNotFound
  | some value? => return value?

def readEntry (table : Table) (offset : Nat) : Action (TableEntry × Nat) := do
  let (keyLength, valueLength) ← table.readLengths offset
  let key ← Action.readExactly table.handle (offset + 8) keyLength
  let value? ← table.readValue (offset + 8 + keyLength) valueLength
  return ((key, value?), offset + 8 + keyLength + (value?.map List.length).getD 0)

/-- At most `limit` entries from an offset up to the end of the data; a failure ends them. They come
behind the ones that were read already, which are given last one first. -/
def itemsBehind (table : Table) : (read : List (Except Error TableEntry)) → (limit offset : Nat) →
    Script (List (Except Error TableEntry))
  | read, 0, _ => return read.reverse
  | read, limit + 1, offset => do
    if table.layout.dataEnd ≤ offset then return read.reverse
    else
      match ← (table.readEntry offset).run with
      | .error e => return (.error e :: read).reverse
      | .ok (entry, next) => itemsBehind table (.ok entry :: read) limit next

def items (table : Table) (limit offset : Nat) : Script (List (Except Error TableEntry)) :=
  table.itemsBehind [] limit offset

/-- All entries. An entry takes at least eight bytes, so the end of the data bounds their number. -/
def all (table : Table) : Script (List (Except Error TableEntry)) :=
  table.items table.layout.dataEnd headerSize

def entriesOf : List (Except Error TableEntry) → Except Error (List TableEntry) :=
  List.mapM id

/-- Up to `limit` entries whose key is at least `start`. -/
def scan (table : Table) (start : Bytes) (limit : Nat) : Action (List TableEntry) := do
  match (table.layout.offsets.entriesFrom start).head? with
  | none => return []
  | some (_, offset) =>
    -- The offset is gone to even if nothing is read there.
    let _ ← Action.read table.handle offset 0
    let items ← Action.ofScript (table.items limit offset)
    ExceptT.mk (pure (entriesOf items))

end Table

end OrderedStore
