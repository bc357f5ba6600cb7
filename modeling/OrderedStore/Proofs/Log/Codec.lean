import OrderedStore.Log.Frame

/-!
# Reading back what was logged

The decoder takes from the front of a byte string exactly what the encoder wrote. Every length in a
payload that fits a frame fits its field, so nothing is lost on the way.

Main statement: `Frame.record_ofPayload`.
-/

namespace OrderedStore.Log

namespace Payload

theorem fieldSize_four : Bytes.fieldSize 4 = 4294967296 :=
  rfl

section Decoder

variable {α β : Type} {input rest : Bytes} {value : α}

theorem bind_eq_of_ok {decoder : Decoder α} (f : α → Decoder β)
    (h : decoder input = .ok (value, rest)) : (decoder >>= f) input = f value rest := by
  change (decoder input >>= fun p => f p.1 p.2) = f value rest
  rw [h]
  rfl

theorem take_append (front rest : Bytes) :
    take front.length (front ++ rest) = .ok (front, rest) := by
  simp [take]

theorem number_append {width n : Nat} (h : n < Bytes.fieldSize width) (rest : Bytes) :
    number width (Bytes.littleEndian width n ++ rest) = .ok (n, rest) := by
  have htake : take width (Bytes.littleEndian width n ++ rest) =
      .ok (Bytes.littleEndian width n, rest) := by
    have := take_append (Bytes.littleEndian width n) rest
    rwa [Bytes.length_littleEndian] at this
  have hbind := bind_eq_of_ok (fun bytes => (pure (Bytes.ofLittleEndian bytes) : Decoder Nat)) htake
  rw [Bytes.ofLittleEndian_littleEndian_of_lt h] at hbind
  exact hbind

theorem decodeBytes_append {bytes : Bytes} (h : bytes.length < Bytes.fieldSize 8) (rest : Bytes) :
    decodeBytes (encodeBytes bytes ++ rest) = .ok (bytes, rest) := by
  unfold decodeBytes encodeBytes
  rw [List.append_assoc]
  exact (bind_eq_of_ok _ (number_append h _)).trans (take_append bytes rest)

end Decoder

/-! ## Mutations and operations -/

theorem decodeMutationAs_append (bound : Nat) {mutation : Mutation}
    (h : mutationLength mutation < Bytes.fieldSize 8) (rest : Bytes) :
    ∃ variant, variant < 2 ∧ ∃ body,
      encodeMutation mutation = four variant ++ body ∧
        decodeMutationAs variant bound (body ++ rest) = .ok (mutation, rest) := by
  cases mutation with
  | put key value =>
    simp only [mutationLength] at h
    refine ⟨0, by decide, _, rfl, ?_⟩
    rw [List.append_assoc]
    refine (bind_eq_of_ok _ (decodeBytes_append (by omega) _)).trans ?_
    exact bind_eq_of_ok _ (decodeBytes_append (by omega) _)
  | delete key =>
    simp only [mutationLength] at h
    refine ⟨1, by decide, _, rfl, ?_⟩
    exact bind_eq_of_ok _ (decodeBytes_append (by omega) _)

theorem decodeMutation_append {mutation : Mutation}
    (h : mutationLength mutation < Bytes.fieldSize 8) (rest : Bytes) :
    decodeMutation (encodeMutation mutation ++ rest) = .ok (mutation, rest) := by
  obtain ⟨variant, hvariant, body, hencode, hdecode⟩ := decodeMutationAs_append 2 h rest
  rw [hencode, List.append_assoc]
  refine (bind_eq_of_ok _ (number_append ?_ _)).trans hdecode
  rw [fieldSize_four]
  omega

theorem decodeMutations_append {mutations : List Mutation}
    (h : mutationsLength mutations < Bytes.fieldSize 8) (rest : Bytes) :
    decodeMutations mutations.length (mutations.flatMap encodeMutation ++ rest) =
      .ok (mutations, rest) := by
  induction mutations with
  | nil => rfl
  | cons mutation others ih =>
    simp only [mutationsLength] at h
    rw [List.flatMap_cons, List.append_assoc]
    refine (bind_eq_of_ok _ (decodeMutation_append (by omega) _)).trans ?_
    exact bind_eq_of_ok _ (ih (by omega))

theorem length_le_mutationsLength (mutations : List Mutation) :
    mutations.length ≤ mutationsLength mutations := by
  induction mutations with
  | nil => exact Nat.le_refl _
  | cons mutation rest ih =>
    have : 1 ≤ mutationLength mutation := by
      cases mutation <;> simp only [mutationLength] <;> omega
    simp only [List.length_cons, mutationsLength]
    omega

theorem decodeOperation_append {operation : Operation}
    (h : operationLength operation < Bytes.fieldSize 8) (rest : Bytes) :
    decodeOperation (encodeOperation operation ++ rest) = .ok (operation, rest) := by
  unfold decodeOperation
  cases operation with
  | one mutation =>
    have hlength : mutationLength mutation < Bytes.fieldSize 8 := h
    obtain ⟨variant, hvariant, body, hencode, hdecode⟩ := decodeMutationAs_append 3 hlength rest
    simp only [encodeOperation]
    rw [hencode, List.append_assoc]
    refine (bind_eq_of_ok _ (number_append (by rw [fieldSize_four]; omega) _)).trans ?_
    have hne : variant ≠ 2 := by omega
    split
    · exact absurd rfl hne
    · exact bind_eq_of_ok _ hdecode
  | batch mutations =>
    simp only [operationLength] at h
    have hcount := length_le_mutationsLength mutations
    simp only [encodeOperation]
    rw [List.append_assoc, List.append_assoc]
    refine (bind_eq_of_ok _ (number_append (by decide) _)).trans ?_
    refine (bind_eq_of_ok _ (number_append (by omega) _)).trans ?_
    exact bind_eq_of_ok _ (decodeMutations_append (by omega) _)

theorem decodeRecord_append {record : Record}
    (h : length record.operation < Bytes.fieldSize 8) (rest : Bytes) :
    decodeRecord (encode record ++ rest) = .ok (record, rest) := by
  simp only [length] at h
  have hlsn : record.lsn.toNat < Bytes.fieldSize 8 := record.lsn.toNat_lt
  have htime : record.timestamp.toNat < Bytes.fieldSize 8 := record.timestamp.toNat_lt
  unfold decodeRecord encode
  rw [List.append_assoc, List.append_assoc]
  refine (bind_eq_of_ok _ (number_append hlsn _)).trans ?_
  refine (bind_eq_of_ok _ (decodeOperation_append (by omega) _)).trans ?_
  refine (bind_eq_of_ok _ (number_append htime _)).trans ?_
  change Except.ok (Record.mk (UInt64.ofNat record.lsn.toNat) record.operation
    (UInt64.ofNat record.timestamp.toNat), rest) = _
  rw [UInt64.ofNat_toNat, UInt64.ofNat_toNat]

/-- A record is read back, whatever stands behind it. -/
theorem decode_append {record : Record} (h : length record.operation < Bytes.fieldSize 8)
    (extra : Bytes) : decode (encode record ++ extra) = .ok record := by
  unfold decode
  rw [decodeRecord_append h]
  rfl

end Payload

/-! ## Frames -/

/-- A header reads no further than it reaches. -/
theorem Header.decode_take (bytes : Bytes) :
    Header.decode (bytes.take Header.size) = Header.decode bytes := by
  simp [Header.decode, Header.size, List.take_take, List.drop_take]

theorem Header.decode_encode (header : Header) (h : header.length < Bytes.fieldSize 4)
    (rest : Bytes) : Header.decode (header.encode ++ rest) = header := by
  have hlsn : header.lsn.toNat < Bytes.fieldSize 8 := header.lsn.toNat_lt
  have hsum : header.checksum.toNat < Bytes.fieldSize 4 := header.checksum.toNat_lt
  have hdrop : (Bytes.littleEndian 8 header.lsn.toNat).drop 12 = [] :=
    List.drop_of_length_le (by simp)
  unfold Header.decode Header.encode
  simp [hdrop, List.drop_append, Bytes.ofLittleEndian_littleEndian_of_lt hlsn,
    Bytes.ofLittleEndian_littleEndian_of_lt hsum, Bytes.ofLittleEndian_littleEndian_of_lt h]

@[simp]
theorem Header.length_encode (header : Header) : header.encode.length = Header.size := by
  simp [Header.encode, Header.size]

namespace Frame

/-- The record of a payload is read back under the header that was written for it. -/
theorem record_ofPayload {record : Record} (h : Payload.length record.operation ≤ payloadLimit) :
    Frame.record ⟨record.lsn, checksum record.lsn (Payload.encode record),
      (Payload.encode record).length⟩ (Payload.encode record) = .ok record := by
  have hdecode := Payload.decode_append (Nat.lt_of_le_of_lt h (by decide)) []
  rw [List.append_nil] at hdecode
  simp [Frame.record, hdecode]

end Frame

end OrderedStore.Log
