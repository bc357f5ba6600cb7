import OrderedStore.Checksum
import OrderedStore.Log.Payload

/-!
# Log frames

A frame is a header of 16 bytes and a payload: the sequence number in eight bytes, the CRC-32 of
sequence number and payload in four, the length of the payload in four. A payload has at most
64 MiB.

Main definitions: `Frame.encode` and `Frame.decode`.
-/

namespace OrderedStore.Log

/-- What precedes the payload of a frame. -/
structure Header where
  lsn : UInt64
  checksum : UInt32
  length : Nat
deriving DecidableEq

def Header.size : Nat :=
  16

/-- The header written in the first 16 bytes of `bytes`. -/
def Header.decode (bytes : Bytes) : Header where
  lsn := .ofNat (Bytes.ofLittleEndian (bytes.take 8))
  checksum := .ofNat (Bytes.ofLittleEndian ((bytes.drop 8).take 4))
  length := Bytes.ofLittleEndian ((bytes.drop 12).take 4)

def Header.encode (header : Header) : Bytes :=
  Bytes.littleEndian 8 header.lsn.toNat ++ Bytes.littleEndian 4 header.checksum.toNat ++
    Bytes.littleEndian 4 header.length

namespace Frame

/-- The largest payload of a frame. -/
def payloadLimit : Nat :=
  64 * 1024 * 1024

/-- The checksum of a frame covers its sequence number and its payload. -/
def checksum (lsn : UInt64) (payload : Bytes) : UInt32 :=
  Checksum.crc32 (Bytes.littleEndian 8 lsn.toNat ++ payload)

def ofPayload (lsn : UInt64) (payload : Bytes) : Bytes :=
  Header.encode ⟨lsn, checksum lsn payload, payload.length⟩ ++ payload

/-- The frame of a record, unless the record is too large for one. -/
def encode (record : Record) : Except LogRefusal Bytes :=
  let length := Payload.length record.operation
  if payloadLimit < length then .error (.oversized length)
  else .ok (ofPayload record.lsn (Payload.encode record))

/-- The record in a payload, if it is the one that the header announces. -/
def record (header : Header) (payload : Bytes) : Except Error Record :=
  if checksum header.lsn payload ≠ header.checksum then
    .error (.logCorruption (.checksum header.lsn.toNat))
  else
    match Payload.decode payload with
    | .error fault => .error (.serialization fault)
    | .ok record =>
      if record.lsn ≠ header.lsn then
        .error (.logCorruption (.sequenceMismatch header.lsn.toNat record.lsn.toNat))
      else .ok record

/-- The record of the frame at the front of `bytes`; what follows the frame carries no meaning. -/
def decode (bytes : Bytes) : Except Error Record :=
  if (bytes.take Header.size).length < Header.size then .error (.logCorruption .shortFrame)
  else
    let header := Header.decode bytes
    let payload := (bytes.drop Header.size).take header.length
    if payload.length < header.length then .error (.logCorruption .truncatedFrame)
    else record header payload

@[simp]
theorem length_ofPayload (lsn : UInt64) (payload : Bytes) :
    (ofPayload lsn payload).length = Header.size + payload.length := by
  simp [ofPayload, Header.encode, Header.size]
  omega

end Frame

end OrderedStore.Log
