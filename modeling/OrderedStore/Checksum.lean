import OrderedStore.Bytes

/-!
# CRC-32

The reflected cyclic redundancy check with polynomial `0xEDB88320`, the one of Ethernet and gzip,
defined bit by bit. The register can be fed a byte string in pieces (`Checksum.feed_append`).
-/

namespace OrderedStore.Checksum

/-- Shifts one bit out of the register, adding the polynomial if the bit was set. -/
def bitStep (register : UInt32) : UInt32 :=
  if register &&& 1 = 1 then (register >>> 1) ^^^ 0xEDB88320 else register >>> 1

def byteStep (register : UInt32) (byte : UInt8) : UInt32 :=
  let mixed := register ^^^ byte.toUInt32
  bitStep (bitStep (bitStep (bitStep (bitStep (bitStep (bitStep (bitStep mixed)))))))

/-- Takes a byte string into the register. -/
def feed (register : UInt32) (bytes : Bytes) : UInt32 :=
  bytes.foldl byteStep register

def start : UInt32 :=
  0xFFFFFFFF

def finish (register : UInt32) : UInt32 :=
  register ^^^ 0xFFFFFFFF

/-- The CRC-32 of a byte string. -/
def crc32 (bytes : Bytes) : UInt32 :=
  finish (feed start bytes)

@[simp]
theorem feed_nil (register : UInt32) : feed register [] = register :=
  rfl

/-- A byte string may be fed in pieces. -/
theorem feed_append (register : UInt32) (front back : Bytes) :
    feed register (front ++ back) = feed (feed register front) back :=
  List.foldl_append ..

-- The check value of CRC-32, which is the checksum of the digits 1 to 9.
example : crc32 [49, 50, 51, 52, 53, 54, 55, 56, 57] = 0xCBF43926 := by
  decide +kernel

end OrderedStore.Checksum
