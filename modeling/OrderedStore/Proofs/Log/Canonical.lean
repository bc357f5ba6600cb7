import OrderedStore.Proofs.Log.Frames

/-!
# One written form

A decoder takes a value from the bytes as which the value is written, and from no others. So a
payload says one record at most, a frame can be written again from the record that it carries, and
whatever bytes a log holds, the operations that are read from it fit a frame.

Main definitions:

- `Log.Payload.Reads`: what a decoder gives, and the bytes that it uses up for it.
- `Log.Header.Covers`: a header before a payload that begins with a record.

Main statements: `Log.Payload.decode_eq_ok_iff`, `Log.Frame.one_written_form`,
`Log.length_le_of_mem_operations`.
-/

namespace OrderedStore.Log

/-! ## Payloads -/

namespace Payload

variable {α β : Type} {post : α → Bytes → Prop}

/-- What a decoder gives, and the bytes that it uses up for it. -/
def Reads (decoder : Decoder α) (post : α → Bytes → Prop) : Prop :=
  ∀ input value rest, decoder input = .ok (value, rest) →
    ∃ used, input = used ++ rest ∧ post value used

theorem reads_pure {value : α} (h : post value []) : Reads (pure value) post := by
  intro input found rest hdecode
  cases hdecode
  exact ⟨[], rfl, h⟩

theorem reads_throw (fault : PayloadFault) (post : α → Bytes → Prop) :
    Reads (throw fault) post := by
  intro input found rest hdecode
  cases hdecode

theorem Reads.mono {decoder : Decoder α} {post' : α → Bytes → Prop} (h : Reads decoder post)
    (weaker : ∀ value used, post value used → post' value used) : Reads decoder post' := by
  intro input value rest hdecode
  obtain ⟨used, hinput, hpost⟩ := h input value rest hdecode
  exact ⟨used, hinput, weaker value used hpost⟩

theorem Reads.bind {decoder : Decoder α} {f : α → Decoder β} {post' : β → Bytes → Prop}
    (h : Reads decoder post)
    (next : ∀ value used, post value used →
      Reads (f value) fun found more => post' found (used ++ more)) :
    Reads (decoder >>= f) post' := by
  intro input found rest hdecode
  obtain ⟨⟨value, between⟩, hfirst, hsecond⟩ := bind_eq_ok_iff.1 hdecode
  obtain ⟨used, rfl, hpost⟩ := h input value between hfirst
  obtain ⟨more, rfl, hpost'⟩ := next value used hpost between found rest hsecond
  exact ⟨used ++ more, (List.append_assoc ..).symm, hpost'⟩

theorem reads_take (count : Nat) :
    Reads (take count) fun bytes used => used = bytes ∧ bytes.length = count := by
  intro input found rest hdecode
  unfold take at hdecode
  simp only at hdecode
  split at hdecode
  · cases hdecode
  · rename_i hlong
    cases hdecode
    have hle := List.length_take_le count input
    exact ⟨input.take count, (List.take_append_drop ..).symm, rfl, by omega⟩

/-- A number is read from the field as which it is written, and it fits the field. -/
theorem reads_number (width : Nat) :
    Reads (number width) fun n used =>
      n < Bytes.fieldSize width ∧ used = Bytes.littleEndian width n := by
  refine (reads_take width).bind ?_
  rintro field used ⟨hused, rfl⟩
  refine reads_pure ⟨Bytes.ofLittleEndian_lt field, ?_⟩
  rw [List.append_nil, hused, Bytes.littleEndian_ofLittleEndian]

theorem reads_decodeBytes : Reads decodeBytes fun bytes used => used = encodeBytes bytes := by
  refine (reads_number 8).bind ?_
  rintro count _ ⟨_, rfl⟩
  refine (reads_take count).mono ?_
  rintro bytes _ ⟨rfl, rfl⟩
  rfl

/-- A mutation without the number of its alternative. -/
theorem reads_decodeMutationAs (variant bound : Nat) :
    Reads (decodeMutationAs variant bound) fun mutation used =>
      four variant ++ used = encodeMutation mutation := by
  unfold decodeMutationAs
  split
  · refine reads_decodeBytes.bind ?_
    rintro key _ rfl
    refine reads_decodeBytes.bind ?_
    rintro value _ rfl
    refine reads_pure ?_
    rw [List.append_nil]
    rfl
  · refine reads_decodeBytes.bind ?_
    rintro key _ rfl
    refine reads_pure ?_
    rw [List.append_nil]
    rfl
  · exact reads_throw _ _

theorem reads_decodeMutation :
    Reads decodeMutation fun mutation used => used = encodeMutation mutation := by
  refine (reads_number 4).bind ?_
  rintro variant _ ⟨_, rfl⟩
  exact reads_decodeMutationAs variant 2

theorem reads_decodeMutations (count : Nat) :
    Reads (decodeMutations count) fun mutations used =>
      mutations.length = count ∧ used = mutations.flatMap encodeMutation := by
  induction count with
  | zero => exact reads_pure ⟨rfl, rfl⟩
  | succ count ih =>
    refine reads_decodeMutation.bind ?_
    rintro mutation _ rfl
    refine ih.bind ?_
    rintro mutations _ ⟨rfl, rfl⟩
    refine reads_pure ⟨rfl, ?_⟩
    rw [List.append_nil, List.flatMap_cons]

theorem reads_decodeOperation :
    Reads decodeOperation fun operation used => used = encodeOperation operation := by
  refine (reads_number 4).bind ?_
  rintro variant _ ⟨_, rfl⟩
  split
  · refine (reads_number 8).bind ?_
    rintro count _ ⟨_, rfl⟩
    refine (reads_decodeMutations count).bind ?_
    rintro mutations _ ⟨rfl, rfl⟩
    refine reads_pure ?_
    rw [List.append_nil]
    rfl
  · refine (reads_decodeMutationAs _ 3).bind fun mutation used hused => reads_pure ?_
    rw [List.append_nil]
    exact hused

theorem reads_decodeRecord :
    Reads decodeRecord fun record used => used = encode record := by
  refine (reads_number 8).bind ?_
  rintro lsn _ ⟨hlsn, rfl⟩
  refine reads_decodeOperation.bind ?_
  rintro operation _ rfl
  refine (reads_number 8).bind ?_
  rintro timestamp _ ⟨htime, rfl⟩
  refine reads_pure ?_
  -- The numbers of a record have 64 bits, and so have their fields.
  simp only [encode, eight, UInt64.toNat_ofNat_of_lt' hlsn, UInt64.toNat_ofNat_of_lt' htime,
    List.append_nil]

/-- A payload is read as the record that is written at its front. -/
theorem prefix_of_decode {payload : Bytes} {record : Record} (h : decode payload = .ok record) :
    encode record <+: payload := by
  unfold decode at h
  cases hdecode : decodeRecord payload with
  | error fault =>
    rw [hdecode] at h
    cases h
  | ok pair =>
    rw [hdecode] at h
    cases h
    obtain ⟨used, hpayload, rfl⟩ := reads_decodeRecord payload pair.1 pair.2 hdecode
    exact ⟨pair.2, hpayload.symm⟩

/-- A record is read from no fewer bytes than it takes to write it. -/
theorem length_le_of_decode {payload : Bytes} {record : Record}
    (h : decode payload = .ok record) : length record.operation ≤ payload.length := by
  rw [← length_encode]
  exact (prefix_of_decode h).length_le

/-- What a payload that can be written says is what it begins with. -/
theorem decode_eq_ok_iff {payload : Bytes} {record : Record}
    (small : payload.length < Bytes.fieldSize 8) :
    decode payload = .ok record ↔ encode record <+: payload := by
  refine ⟨prefix_of_decode, ?_⟩
  rintro ⟨extra, rfl⟩
  refine decode_append ?_ extra
  rw [List.length_append, length_encode] at small
  omega

end Payload

/-! ## Frames -/

/-- What a header says of the payload behind it: its length, which fits four bytes, and the checksum
over sequence number and payload. The payload begins with a record that has the sequence number of
the header. -/
structure Header.Covers (header : Header) (payload : Bytes) (record : Record) : Prop where
  length : header.length = payload.length
  counted : payload.length < Bytes.fieldSize 4
  checksum : header.checksum =
    Checksum.crc32 (Bytes.littleEndian 8 header.lsn.toNat ++ payload)
  begins : Payload.encode record <+: payload
  lsn : record.lsn = header.lsn

variable {header : Header} {payload bytes frame : Bytes} {record : Record}

theorem Header.length_decode_lt (bytes : Bytes) :
    (Header.decode bytes).length < Bytes.fieldSize 4 :=
  Nat.lt_of_lt_of_le (Bytes.ofLittleEndian_lt _)
    (Bytes.fieldSize_mono (List.length_take_le 4 (bytes.drop 12)))

theorem Header.covers_iff (length : header.length = payload.length)
    (counted : payload.length < Bytes.fieldSize 4) :
    header.Covers payload record ↔ Frame.record header payload = .ok record := by
  have hsmall := Nat.lt_of_lt_of_le counted (Bytes.fieldSize_mono (by decide : 4 ≤ 8))
  rw [Frame.record_eq_ok_iff, Payload.decode_eq_ok_iff hsmall]
  constructor
  · intro h
    exact ⟨h.checksum, h.begins, h.lsn⟩
  · rintro ⟨checksum, begins, lsn⟩
    exact ⟨length, counted, checksum, begins, lsn⟩

namespace Frame

/-- A header and the payload that it covers, with anything behind them. -/
theorem decode_of_covers (h : header.Covers payload record) (rest : Bytes) :
    decode (header.encode ++ (payload ++ rest)) = .ok record := by
  have hheader := Header.decode_encode header (h.length ▸ h.counted) (payload ++ rest)
  have hfront : (header.encode ++ (payload ++ rest)).take Header.size = header.encode :=
    List.take_left' header.length_encode
  have hback : (header.encode ++ (payload ++ rest)).drop Header.size = payload ++ rest :=
    List.drop_left' header.length_encode
  have hpayload : (payload ++ rest).take header.length = payload :=
    List.take_left' h.length.symm
  unfold decode
  rw [hfront, header.length_encode, if_neg (Nat.lt_irrefl _)]
  simp only [hheader, hback, hpayload]
  rw [if_neg (h.length ▸ Nat.lt_irrefl _)]
  exact (Header.covers_iff h.length h.counted).1 h

/-- What decodes is a header and as many bytes as it announces, which it covers. -/
theorem covers_of_decode (h : decode bytes = .ok record) :
    ∃ payload rest, bytes = (Header.decode bytes).encode ++ (payload ++ rest) ∧
      (Header.decode bytes).Covers payload record := by
  unfold decode at h
  split at h
  · cases h
  rename_i hlong
  simp only at h
  split at h
  · cases h
  rename_i hwhole
  have hhead : (bytes.take Header.size).length = Header.size := by
    have := List.length_take_le Header.size bytes
    omega
  have hlength : (Header.decode bytes).length =
      ((bytes.drop Header.size).take (Header.decode bytes).length).length := by
    have := List.length_take_le (Header.decode bytes).length (bytes.drop Header.size)
    omega
  refine ⟨(bytes.drop Header.size).take (Header.decode bytes).length,
    (bytes.drop Header.size).drop (Header.decode bytes).length, ?_, ?_⟩
  · rw [List.take_append_drop, ← Header.decode_take, Header.encode_decode hhead,
      List.take_append_drop]
  · exact (Header.covers_iff hlength (hlength ▸ Header.length_decode_lt bytes)).2 h

theorem decode_eq_ok_iff :
    decode bytes = .ok record ↔ ∃ (header : Header) (payload rest : Bytes),
      bytes = header.encode ++ (payload ++ rest) ∧ header.Covers payload record := by
  constructor
  · intro h
    exact ⟨Header.decode bytes, covers_of_decode h⟩
  · rintro ⟨header, payload, rest, rfl, hcovers⟩
    exact decode_of_covers hcovers rest

/-- A covered payload without extra bytes is the one of the record, and makes its frame. -/
theorem frame_of_covers (h : header.Covers payload record)
    (bare : payload.length = (Payload.encode record).length) :
    header.encode ++ payload = record.frame := by
  obtain rfl := h.begins.eq_of_length bare.symm
  have hheader : header = ⟨record.lsn, checksum record.lsn (Payload.encode record),
      (Payload.encode record).length⟩ := by
    cases header
    rw [Header.mk.injEq]
    exact ⟨h.lsn.symm, h.lsn ▸ h.checksum, h.length⟩
  rw [hheader]
  rfl

theorem covers_frame (fits : (Payload.encode record).length ≤ payloadLimit) :
    (Header.mk record.lsn (checksum record.lsn (Payload.encode record))
      (Payload.encode record).length).Covers (Payload.encode record) record where
  length := rfl
  counted := Nat.lt_of_le_of_lt fits (by decide)
  checksum := rfl
  begins := List.prefix_rfl
  lsn := rfl

theorem encode_eq_error (large : payloadLimit < (Payload.encode record).length) :
    encode record = .error (.oversized (Payload.encode record).length) := by
  rw [Payload.length_encode] at large ⊢
  exact if_pos large

theorem encode_eq_ok_iff :
    encode record = .ok frame ↔
      (Payload.encode record).length ≤ payloadLimit ∧ frame = record.frame := by
  rcases Nat.lt_or_ge payloadLimit (Payload.encode record).length with hlarge | hfits
  · simp [encode_eq_error hlarge, Nat.not_le.2 hlarge]
  · have hencode : encode record = .ok record.frame := by
      rw [Payload.length_encode] at hfits
      exact if_neg (Nat.not_lt.2 hfits)
    rw [hencode, Except.ok.injEq]
    exact ⟨fun h => ⟨hfits, h.symm⟩, fun h => h.2.symm⟩

theorem decode_frame (fits : (Payload.encode record).length ≤ payloadLimit) (rest : Bytes) :
    decode (record.frame ++ rest) = .ok record := by
  rw [Record.frame, ofPayload, List.append_assoc]
  exact decode_of_covers (covers_frame fits) rest

/-- A record has a frame unless its payload exceeds the limit, and the frame is decoded as the
record, whatever stands behind it. Bytes are decoded as a record just if they begin with a header
and a payload that it covers. If this payload has no extra bytes and is within the limit, header and
payload are the frame of the record. A frame belongs to one record only. -/
theorem one_written_form :
    (∀ (record : Record) (e : Error), (encode record).mapError .logWrite = .error e ↔
      payloadLimit < (Payload.encode record).length ∧
        e = .logWrite (.oversized (Payload.encode record).length)) ∧
    (∀ record : Record, (Payload.encode record).length ≤ payloadLimit →
      ∃ frame, encode record = .ok frame ∧ ∀ rest, decode (frame ++ rest) = .ok record) ∧
    (∀ (bytes : Bytes) (record : Record), decode bytes = .ok record ↔
      ∃ (header : Header) (payload rest : Bytes),
        bytes = header.encode ++ (payload ++ rest) ∧ header.Covers payload record) ∧
    (∀ (bytes : Bytes) (record : Record), decode bytes = .ok record →
      (Header.decode bytes).length = (Payload.encode record).length →
      (Header.decode bytes).length ≤ payloadLimit →
      encode record = .ok (bytes.take (Header.size + (Header.decode bytes).length))) ∧
    (∀ (record other : Record) (frame : Bytes),
      encode record = .ok frame → encode other = .ok frame → record = other) := by
  refine ⟨?refused, ?written, fun _ _ => decode_eq_ok_iff, ?again, ?unique⟩
  case refused =>
    intro record e
    rcases Nat.lt_or_ge payloadLimit (Payload.encode record).length with hlarge | hfits
    · simp [encode_eq_error hlarge, Except.mapError, hlarge, eq_comm]
    · simp [encode_eq_ok_iff.2 ⟨hfits, rfl⟩, Except.mapError, Nat.not_lt.2 hfits]
  case written =>
    intro record fits
    exact ⟨record.frame, encode_eq_ok_iff.2 ⟨fits, rfl⟩, decode_frame fits⟩
  case again =>
    intro bytes record h bare fits
    obtain ⟨payload, rest, hbytes, hcovers⟩ := covers_of_decode h
    generalize Header.decode bytes = header at *
    subst hbytes
    have hlength : (header.encode ++ payload).length = Header.size + header.length := by
      rw [List.length_append, header.length_encode, hcovers.length]
    rw [← List.append_assoc, List.take_left' hlength]
    refine encode_eq_ok_iff.2 ⟨bare ▸ fits, ?_⟩
    exact frame_of_covers hcovers (hcovers.length ▸ bare)
  case unique =>
    intro record other frame hrecord hother
    obtain ⟨hfits, rfl⟩ := encode_eq_ok_iff.1 hrecord
    obtain ⟨hfits', heq⟩ := encode_eq_ok_iff.1 hother
    have hdecode := decode_frame hfits []
    rw [heq, decode_frame hfits' [], Except.ok.injEq] at hdecode
    exact hdecode.symm

/-- A batch with an empty value and an empty key. Its frame is decoded with bytes behind it, and so
is its payload with an extra byte, but this is no frame that is written. -/
theorem one_written_form_batch :
    ∃ (record : Record) (frame padded : Bytes),
      record = ⟨7, .batch [.put [1] [], .delete []], 3⟩ ∧
      encode record = .ok frame ∧ decode (frame ++ [8, 9]) = .ok record ∧
      padded = ofPayload 7 (Payload.encode record ++ [0]) ∧ decode padded = .ok record ∧
      ∀ other, encode other ≠ .ok padded := by
  let record : Record := ⟨7, .batch [.put [1] [], .delete []], 3⟩
  let payload := Payload.encode record ++ [0]
  obtain ⟨-, hwritten, hdecode, -, -⟩ := one_written_form
  obtain ⟨frame, hframe, hbehind⟩ := hwritten record (by decide +kernel)
  have hcovers : (Header.mk 7 (checksum 7 payload) payload.length).Covers payload record :=
    ⟨rfl, by decide +kernel, rfl, List.prefix_append _ _, rfl⟩
  have hpadded : decode (ofPayload 7 payload) = .ok record :=
    (hdecode _ _).2 ⟨_, payload, [], by rw [List.append_nil]; rfl, hcovers⟩
  refine ⟨record, frame, _, rfl, hframe, hbehind _, rfl, hpadded, ?_⟩
  intro other hother
  -- Only the record itself could have this frame, and its own is shorter.
  obtain ⟨hfits, -⟩ := encode_eq_ok_iff.1 hother
  obtain ⟨again, hagain, hback⟩ := hwritten other hfits
  obtain rfl := Except.ok.inj (hother.symm.trans hagain)
  have hsame := hback []
  rw [List.append_nil, hpadded, Except.ok.injEq] at hsame
  subst hsame
  have hlength := congrArg List.length (encode_eq_ok_iff.1 hother).2
  simp [Record.frame] at hlength

end Frame

/-! ## Whole logs -/

/-- Whatever bytes a log holds, the operations that are read from it fit a frame. -/
theorem length_le_of_mem_operations {bytes : Bytes} {operation : Operation}
    (h : operation ∈ operations bytes) : Payload.length operation ≤ Frame.payloadLimit := by
  obtain ⟨record, hmem, rfl⟩ := List.mem_map.1 h
  induction bytes using parse_induction with
  | stop bytes hnone =>
    rw [(parse_of_none hnone).1] at hmem
    cases hmem
  | next front first rest hfront ih =>
    rw [(parse_front hfront rest).1] at hmem
    rcases List.mem_cons.1 hmem with rfl | hrest
    · obtain ⟨header, payload, -, hannounces⟩ := validFrame_of_split? hfront
      exact Nat.le_trans (Payload.length_le_of_decode hannounces.decodes) hannounces.limited
    · exact ih hrest (List.mem_map.2 ⟨record, hrest, rfl⟩)

end OrderedStore.Log
