import OrderedStore.Error
import OrderedStore.Log.Record

/-!
# Record payloads

A record is written as its sequence number, its operation and its time. Numbers have fixed widths
and put the least significant byte first; alternatives are numbered in four bytes, byte strings and
lists are preceded by their length in eight. A single mutation is written as it is inside a batch.

Main statements: `Payload.length_encode` gives the length of a payload from the lengths of the keys
and values in it, without writing it.
-/

namespace OrderedStore.Log.Payload

def four (n : Nat) : Bytes :=
  Bytes.littleEndian 4 n

def eight (n : Nat) : Bytes :=
  Bytes.littleEndian 8 n

def encodeBytes (bytes : Bytes) : Bytes :=
  eight bytes.length ++ bytes

def encodeMutation : Mutation → Bytes
  | .put key value => four 0 ++ (encodeBytes key ++ encodeBytes value)
  | .delete key => four 1 ++ encodeBytes key

/-- An operation; a batch is the third alternative. -/
def encodeOperation : Operation → Bytes
  | .one mutation => encodeMutation mutation
  | .batch mutations => four 2 ++ (eight mutations.length ++ mutations.flatMap encodeMutation)

def encode (record : Record) : Bytes :=
  eight record.lsn.toNat ++ (encodeOperation record.operation ++ eight record.timestamp.toNat)

/-- The length of a written mutation. -/
def mutationLength : Mutation → Nat
  | .put key value => 20 + key.length + value.length
  | .delete key => 12 + key.length

def mutationsLength : List Mutation → Nat
  | [] => 0
  | mutation :: rest => mutationLength mutation + mutationsLength rest

def operationLength : Operation → Nat
  | .one mutation => mutationLength mutation
  | .batch mutations => 12 + mutationsLength mutations

/-- The length of the payload that carries an operation. -/
def length (operation : Operation) : Nat :=
  16 + operationLength operation

theorem length_encodeMutation (mutation : Mutation) :
    (encodeMutation mutation).length = mutationLength mutation := by
  cases mutation <;> simp [encodeMutation, mutationLength, encodeBytes, four, eight] <;> omega

theorem length_encodeMutations (mutations : List Mutation) :
    (mutations.flatMap encodeMutation).length = mutationsLength mutations := by
  induction mutations with
  | nil => rfl
  | cons mutation rest ih => simp [mutationsLength, length_encodeMutation, ih]

theorem length_encodeOperation (operation : Operation) :
    (encodeOperation operation).length = operationLength operation := by
  cases operation with
  | one mutation => exact length_encodeMutation mutation
  | batch mutations =>
    simp only [encodeOperation, operationLength, List.length_append, length_encodeMutations]
    simp [four, eight]
    omega

/-- The length of a payload follows from its operation. -/
theorem length_encode (record : Record) : (encode record).length = length record.operation := by
  simp [encode, length, length_encodeOperation, eight]
  omega

/-- Reading from the front of a byte string. -/
abbrev Decoder (α : Type) :=
  StateT Bytes (Except PayloadFault) α

def take (count : Nat) : Decoder Bytes := fun input =>
  let front := input.take count
  if front.length < count then .error .endOfInput
  else .ok (front, input.drop count)

def number (width : Nat) : Decoder Nat := do
  return Bytes.ofLittleEndian (← take width)

def decodeBytes : Decoder Bytes := do
  take (← number 8)

/-- The mutation that alternative `variant` of `bound` announces. -/
def decodeMutationAs (variant bound : Nat) : Decoder Mutation :=
  match variant with
  | 0 => do
    let key ← decodeBytes
    let value ← decodeBytes
    return .put key value
  | 1 => do
    return .delete (← decodeBytes)
  | _ => throw (.unknownVariant variant bound)

def decodeMutation : Decoder Mutation := do
  decodeMutationAs (← number 4) 2

def decodeMutations : (count : Nat) → Decoder (List Mutation)
  | 0 => return []
  | count + 1 => do
    let mutation ← decodeMutation
    return mutation :: (← decodeMutations count)

def decodeOperation : Decoder Operation := do
  match ← number 4 with
  | 2 => return .batch (← decodeMutations (← number 8))
  | variant => return .one (← decodeMutationAs variant 3)

def decodeRecord : Decoder Record := do
  let lsn ← number 8
  let operation ← decodeOperation
  let timestamp ← number 8
  return { lsn := .ofNat lsn, operation, timestamp := .ofNat timestamp }

/-- The record at the front of a payload; bytes after it carry no meaning. -/
def decode (payload : Bytes) : Except PayloadFault Record :=
  (decodeRecord payload).map (·.1)

end OrderedStore.Log.Payload
