import OrderedStore.Error
import OrderedStore.KeyMap
import OrderedStore.Memtable

/-!
# The layout of a table file

A table file holds entries in ascending key order:

- a header of 14 bytes: the letters `TWKV`, the version in two bytes, the number of entries in
  eight;
- the data: for every entry the length of key and value in four bytes each, the key and the value;
  a tombstone has the length `0xFFFFFFFF` and no value;
- the index: for every entry the length of the key in four bytes, the offset of the entry in eight,
  and the key;
- a footer of 16 bytes: the offset of the index in eight bytes, the CRC-32 of the data in four, and
  four zero bytes.

Main definitions: the `pieces` functions write these parts, `Ends.read` checks header and footer of
a file, and `Layout.ofIndex` reads its index.
-/

namespace OrderedStore.Table

/-- The capacity of the buffers through which tables are written and read, where none is asked
for. -/
def Draft.defaultCapacity : Nat :=
  8 * 1024

def magic : Bytes :=
  [0x54, 0x57, 0x4B, 0x56]

def version : Nat :=
  1

def headerSize : Nat :=
  14

def footerSize : Nat :=
  16

/-- The value length that marks a tombstone. -/
def tombstoneMark : Nat :=
  0xFFFFFFFF

/-- Where the header holds the number of entries. -/
def countOffset : Nat :=
  6

def headerPieces (count : Nat) : List Bytes :=
  [magic, Bytes.littleEndian 2 version, Bytes.littleEndian 8 count]

def entryPieces (key : Bytes) (value? : Option Bytes) : List Bytes :=
  let valueLength := (value?.map List.length).getD tombstoneMark
  [Bytes.littleEndian 4 key.length, Bytes.littleEndian 4 valueLength, key] ++ value?.toList

def indexPieces (offsets : List (Bytes × Nat)) : List Bytes :=
  offsets.flatMap fun (key, offset) =>
    [Bytes.littleEndian 4 key.length, Bytes.littleEndian 8 offset, key]

def footerPieces (indexOffset : Nat) (checksum : UInt32) : List Bytes :=
  [Bytes.littleEndian 8 indexOffset, Bytes.littleEndian 4 checksum.toNat, [0, 0, 0, 0]]

/-- What header and footer of a table file say. -/
structure Ends where
  count : Nat
  /-- Where the data ends and the index begins. -/
  dataEnd : Nat
  checksum : Nat
deriving DecidableEq

/-- Checks header and footer of a file of `size` bytes; `file` names the file in messages. -/
def Ends.read (file : String) (size : Nat) (header footer : Bytes) : Except StorageFault Ends :=
  let found := Bytes.ofLittleEndian ((header.drop 4).take 2)
  let dataEnd := Bytes.ofLittleEndian (footer.take 8)
  -- The order of the checks decides what a file with several faults is refused for.
  if header.take 4 ≠ magic then .error (.badMagic (header.take 4))
  else if found ≠ version then .error (.unsupportedVersion found)
  else if dataEnd < headerSize ∨ size - footerSize < dataEnd then
    .error (.indexOutside file dataEnd)
  else
    .ok {
      count := Bytes.ofLittleEndian ((header.drop countOffset).take 8)
      dataEnd
      checksum := Bytes.ofLittleEndian ((footer.drop 8).take 4) }

/-- What an open table keeps of its file. -/
structure Layout where
  count : Nat
  dataEnd : Nat
  offsets : KeyMap Nat

namespace Layout

/-- The entries of an index; `none` if the last key is cut off. Fewer than 12 bytes at the end carry
no meaning. -/
def indexEntries (index : Bytes) : Option (List (Bytes × Nat)) :=
  if _short : (index.take 12).length < 12 then some []
  else
    let length := Bytes.ofLittleEndian (index.take 4)
    let offset := Bytes.ofLittleEndian ((index.drop 4).take 8)
    let key := (index.drop 12).take length
    if key.length < length then none
    else (indexEntries ((index.drop 12).drop length)).map ((key, offset) :: ·)
termination_by index.length
decreasing_by
  simp only [List.length_take, List.length_drop] at _short ⊢
  omega

def ofIndex (file : String) (ends : Ends) (index : Bytes) : Except StorageFault Layout :=
  match indexEntries index with
  | none => .error (.truncatedIndex file)
  | some offsets =>
    .ok {
      count := ends.count
      dataEnd := ends.dataEnd
      offsets := KeyMap.empty.insertAll offsets }

end Layout

end OrderedStore.Table
