import OrderedStore.KeyMap
import OrderedStore.Mutation

/-!
# The memtable

Recent mutations in key order. A deleted key stays in the table as a tombstone (`none`), so that
older data is not asked. The table keeps count of the bytes it stands for: the length of key and
value, and a fixed charge for every entry.
-/

namespace OrderedStore

/-- A key with its value, or with `none` where the key was deleted. -/
abbrev TableEntry := Bytes × Option Bytes

/-- The recent mutations of a store. -/
structure Memtable where
  entries : KeyMap (Option Bytes) := .empty
  /-- The bytes that the entries stand for. -/
  size : Nat := 0

namespace Memtable

def empty : Memtable :=
  { }

instance : Inhabited Memtable :=
  ⟨empty⟩

/-- The charge for an entry beside its bytes. -/
def entryOverhead : Nat :=
  32

def charge (key : Bytes) (value? : Option Bytes) : Nat :=
  key.length + (value?.map List.length).getD 0 + entryOverhead

/-- What the table says about a key: nothing, a value, or that it was deleted. -/
def find? (table : Memtable) (key : Bytes) : Option (Option Bytes) :=
  table.entries.find? key

def apply (table : Memtable) (mutation : Mutation) : Memtable :=
  let key := mutation.key
  -- The charge of an entry that is replaced is part of `size`, so nothing is cut off below.
  let replaced := ((table.entries.find? key).map (charge key)).getD 0
  { entries := table.entries.insert key mutation.value?
    size := table.size + charge key mutation.value? - replaced }

def applyAll (table : Memtable) (mutations : List Mutation) : Memtable :=
  mutations.foldl apply table

/-- The first `limit` entries whose key is at least `start`, tombstones included. -/
def range (table : Memtable) (start : Bytes) (limit : Nat) : List TableEntry :=
  (table.entries.entriesFrom start).take limit

def toList (table : Memtable) : List TableEntry :=
  table.entries.toList

def count (table : Memtable) : Nat :=
  table.entries.size

def isEmpty (table : Memtable) : Bool :=
  table.entries.isEmpty

def isFull (table : Memtable) (limit : Nat) : Bool :=
  limit ≤ table.size

@[simp]
theorem applyAll_nil (table : Memtable) : table.applyAll [] = table :=
  rfl

theorem applyAll_append (table : Memtable) (front back : List Mutation) :
    table.applyAll (front ++ back) = (table.applyAll front).applyAll back :=
  List.foldl_append ..

/-- A mutation decides about its key and leaves every other key alone. -/
theorem find?_apply (table : Memtable) (mutation : Mutation) (key : Bytes) :
    (table.apply mutation).find? key =
      if key = mutation.key then some mutation.value? else table.find? key :=
  KeyMap.find?_insert ..

end Memtable

end OrderedStore
