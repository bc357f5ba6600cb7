import OrderedStore.Proofs.Checksum
import OrderedStore.Proofs.Log.Recovering

/-!
# Damage to a log

A log that consists of frames is damaged: it is cut inside a frame, or up to four bytes in a row are
changed in one field of a frame that the checksum protects. No damaged frame reads as a frame, so
recovery keeps the frames in front of it and nothing else.

Main definitions:

- `Log.Field`: the fields in which every small change is noticed.
- `Log.Damage`: what may stand in place of a frame and of all behind it.

Main statement: `Log.Recovery.recover_damaged`.
-/

namespace OrderedStore.Log

variable {host : Host} {path : Path} {record : Record} {before behind : List Record}
  {sequence sum length payload rest bytes : Bytes}

/-! ## What may be damaged -/

/-- The fields of a frame in which every small change is noticed. The length of the payload is not
among them: with another length other bytes are taken for the payload. -/
inductive Field where
  | sequence
  | checksum
  | payload

/-- Where a field begins in the frame of a record, and where it ends. -/
def Field.span (record : Record) : Field → Nat × Nat
  | .sequence => (0, 8)
  | .checksum => (8, 12)
  | .payload => (Header.size, record.frame.length)

/-- What may stand in place of the frame of a record and of the bytes behind it: only the first part
of the frame, or both with other bytes in one place of a field. -/
inductive Damage (record : Record) (rest : Bytes) : Bytes → Prop where
  | cut {count : Nat} :
      0 < count → count < record.frame.length → Damage record rest (record.frame.take count)
  | burst {front old new back : Bytes} {field : Field} :
      record.frame = front ++ old ++ back →
      (field.span record).1 ≤ front.length →
      front.length + old.length ≤ (field.span record).2 →
      old.length ≤ 4 → new.length = old.length → new ≠ old →
      Damage record rest (front ++ new ++ back ++ rest)

/-! ## The fields of a frame -/

/-- The fields of a frame in order: the second holds the checksum of the first and the last, and the
third the length of the last. -/
structure Fields (sequence sum length payload : Bytes) : Prop where
  sequenceSize : sequence.length = 8
  sumSize : sum.length = 4
  lengthSize : length.length = 4
  counted : Bytes.ofLittleEndian length = payload.length
  checksum : sum = Bytes.littleEndian 4 (Checksum.crc32 (sequence ++ payload)).toNat

/-- The frame of a record that is not too large is made of fields. -/
theorem exists_fields (fits : Payload.length record.operation ≤ Frame.payloadLimit) :
    ∃ sequence sum length payload, Fields sequence sum length payload ∧
      record.frame = sequence ++ (sum ++ (length ++ payload)) := by
  refine ⟨_, _, _, Payload.encode record, ⟨Bytes.length_littleEndian 8 record.lsn.toNat,
    Bytes.length_littleEndian .., Bytes.length_littleEndian 4 (Payload.encode record).length,
    ?_, rfl⟩, ?_⟩
  · apply Bytes.ofLittleEndian_littleEndian_of_lt
    rw [Payload.length_encode]
    exact Nat.lt_of_le_of_lt fits (by decide)
  · simp only [Record.frame, Frame.ofPayload, Frame.checksum, Header.encode, List.append_assoc]

/-- Where bytes read as a frame, the second field holds the checksum of the first and the last. -/
theorem sum_eq_of_split? {found : Record × Bytes}
    (h : Frame.split? (sequence ++ (sum ++ (length ++ (payload ++ rest)))) = some found)
    (hsequence : sequence.length = 8) (hsum : sum.length = 4) (hlength : length.length = 4)
    (counted : Bytes.ofLittleEndian length = payload.length) :
    sum = Bytes.littleEndian 4 (Checksum.crc32 (sequence ++ payload)).toNat := by
  obtain ⟨frame, hbytes, header, payload', rfl, announces⟩ := Frame.split?_iff_validFrame.1 h
  simp only [Header.encode, List.append_assoc] at hbytes
  obtain ⟨hfirst, hbytes⟩ := List.append_inj hbytes (by simp [hsequence])
  obtain ⟨hsecond, hbytes⟩ := List.append_inj hbytes (by simp [hsum])
  obtain ⟨hthird, hbytes⟩ := List.append_inj hbytes (by simp [hlength])
  rw [hthird, Bytes.ofLittleEndian_littleEndian_of_lt announces.length_lt, announces.length]
    at counted
  obtain ⟨hlast, _⟩ := List.append_inj hbytes counted.symm
  rw [hfirst, hsecond, hlast, announces.checksum]

theorem eq_of_littleEndian_toNat {left right : UInt32}
    (h : Bytes.littleEndian 4 left.toNat = Bytes.littleEndian 4 right.toNat) : left = right := by
  apply UInt32.toNat_inj.1
  have hnumbers := congrArg Bytes.ofLittleEndian h
  rwa [Bytes.ofLittleEndian_littleEndian_of_lt left.toNat_lt,
    Bytes.ofLittleEndian_littleEndian_of_lt right.toNat_lt] at hnumbers

/-- A part of a byte string that ends inside the first of two pieces. -/
theorem exists_of_append_eq {front back first second : Bytes} (h : front ++ back = first ++ second)
    (inside : front.length ≤ first.length) :
    ∃ middle, first = front ++ middle ∧ back = middle ++ second := by
  obtain ⟨middle, hfirst⟩ :=
    List.prefix_of_prefix_length_le ⟨back, h⟩ (List.prefix_append first second) inside
  subst hfirst
  rw [List.append_assoc] at h
  exact ⟨middle, rfl, List.append_cancel_left h⟩

/-! ## Damaged frames -/

section Burst

variable {front old new back : Bytes}

/-- Where the sequence number or the payload is changed, the second field holds the checksum of
other bytes. -/
theorem Fields.sum_ne {front' back' : Bytes} (fields : Fields sequence sum length payload)
    (covered : sequence ++ payload = front' ++ old ++ back') (few : old.length ≤ 4)
    (same : new.length = old.length) (different : new ≠ old) :
    sum ≠ Bytes.littleEndian 4 (Checksum.crc32 (front' ++ new ++ back')).toNat := by
  intro h
  rw [fields.checksum, covered] at h
  exact Checksum.crc32_ne_of_burst same.symm few different (eq_of_littleEndian_toNat h).symm

theorem Fields.split?_burst_sequence (fields : Fields sequence sum length payload)
    (frame : front ++ old ++ back = sequence ++ (sum ++ (length ++ payload)))
    (inside : front.length + old.length ≤ 8) (few : old.length ≤ 4)
    (same : new.length = old.length) (different : new ≠ old) (rest : Bytes) :
    Frame.split? (front ++ new ++ back ++ rest) = none := by
  have hwidth := fields.sequenceSize
  obtain ⟨middle, hfield, hback⟩ := exists_of_append_eq frame (by
    rw [List.length_append, hwidth]
    exact inside)
  have hbytes : front ++ new ++ back ++ rest =
      (front ++ new ++ middle) ++ (sum ++ (length ++ (payload ++ rest))) := by
    simp [hback]
  have hchanged : (front ++ new ++ middle).length = 8 := by
    rw [hfield] at hwidth
    simpa [same] using hwidth
  rw [Option.eq_none_iff_forall_ne_some, hbytes]
  intro found hfound
  have hsum := sum_eq_of_split? hfound hchanged fields.sumSize fields.lengthSize fields.counted
  have hcovered : sequence ++ payload = front ++ old ++ (middle ++ payload) := by
    simp [hfield]
  apply fields.sum_ne hcovered few same different
  rw [hsum, List.append_assoc]

theorem Fields.split?_burst_checksum (fields : Fields sequence sum length payload)
    (frame : front ++ old ++ back = sequence ++ (sum ++ (length ++ payload)))
    (start : 8 ≤ front.length) (inside : front.length + old.length ≤ 12)
    (same : new.length = old.length) (different : new ≠ old) (rest : Bytes) :
    Frame.split? (front ++ new ++ back ++ rest) = none := by
  have hwidth := fields.sumSize
  have hfirst := fields.sequenceSize
  rw [List.append_assoc] at frame
  obtain ⟨before, rfl, hrest⟩ := exists_of_append_eq frame.symm (by rwa [hfirst])
  rw [List.length_append, hfirst] at inside
  rw [← List.append_assoc before] at hrest
  obtain ⟨middle, hfield, hback⟩ := exists_of_append_eq hrest.symm (by
    rw [List.length_append, hwidth]
    omega)
  have hbytes : sequence ++ before ++ new ++ back ++ rest =
      sequence ++ ((before ++ new ++ middle) ++ (length ++ (payload ++ rest))) := by
    simp [hback]
  have hchanged : (before ++ new ++ middle).length = 4 := by
    rw [hfield] at hwidth
    simpa [same] using hwidth
  rw [Option.eq_none_iff_forall_ne_some, hbytes]
  intro found hfound
  -- The checksum is that of the same bytes as before, so the second field would be as before.
  have hsum := sum_eq_of_split? hfound hfirst hchanged fields.lengthSize fields.counted
  rw [← fields.checksum, hfield] at hsum
  exact different (List.append_cancel_left (List.append_cancel_right hsum))

theorem Fields.split?_burst_payload (fields : Fields sequence sum length payload)
    (frame : front ++ old ++ back = sequence ++ (sum ++ (length ++ payload)))
    (start : Header.size ≤ front.length) (few : old.length ≤ 4)
    (same : new.length = old.length) (different : new ≠ old) (rest : Bytes) :
    Frame.split? (front ++ new ++ back ++ rest) = none := by
  obtain ⟨hfirst, hsecond, hthird, hcounted, _⟩ := id fields
  have hhead : (sequence ++ (sum ++ length)).length = Header.size := by
    simp only [List.length_append, hfirst, hsecond, hthird, Header.size]
  have hframe : (sequence ++ (sum ++ length)) ++ payload = front ++ (old ++ back) := by
    rw [← List.append_assoc front, frame]
    simp
  obtain ⟨before, rfl, rfl⟩ := exists_of_append_eq hframe (by rwa [hhead])
  have hbytes : sequence ++ (sum ++ length) ++ before ++ new ++ back ++ rest =
      sequence ++ (sum ++ (length ++ ((before ++ new ++ back) ++ rest))) := by
    simp
  have hchanged : Bytes.ofLittleEndian length = (before ++ new ++ back).length := by
    rw [hcounted]
    simp only [List.length_append, same]
    omega
  rw [Option.eq_none_iff_forall_ne_some, hbytes]
  intro found hfound
  have hsum := sum_eq_of_split? hfound hfirst hsecond hthird hchanged
  have hcovered : sequence ++ (before ++ (old ++ back)) = sequence ++ before ++ old ++ back := by
    simp
  apply fields.sum_ne hcovered few same different
  rw [hsum]
  simp

end Burst

/-- A damaged frame does not read as a frame, and something of it is there. -/
theorem Damage.split?_eq_none (damage : Damage record rest bytes)
    (fits : Payload.length record.operation ≤ Frame.payloadLimit) :
    Frame.split? bytes = none ∧ bytes ≠ [] := by
  cases damage with
  | @cut count positive short =>
    refine ⟨Frame.split?_take (Frame.split?_ofPayload fits) short, ?_⟩
    rw [← List.length_pos_iff, List.length_take]
    omega
  | @burst front old new back field frame start inside few same different =>
    obtain ⟨sequence, sum, length, payload, fields, hframe⟩ := exists_fields fits
    rw [frame] at hframe
    constructor
    · cases field with
      | sequence => exact fields.split?_burst_sequence hframe inside few same different rest
      | checksum => exact fields.split?_burst_checksum hframe start inside same different rest
      | payload => exact fields.split?_burst_payload hframe start few same different rest
    · have hnew : new ≠ [] := by
        rintro rfl
        exact different (List.length_eq_zero_iff.1 same.symm).symm
      simp [hnew]

/-- In a log of frames one frame is damaged. Recovery gives exactly the records in front of it,
reports one damaged place, and cuts the file behind the last frame in front of it. -/
theorem Recovery.recover_damaged
    (fit : ∀ other ∈ before ++ record :: behind,
      Payload.length other.operation ≤ Frame.payloadLimit)
    (damage : Damage record (behind.flatMap (·.frame)) bytes) (sound : host.Sound)
    (content : host.disk.content? path = some (before.flatMap (·.frame) ++ bytes)) :
    ∃ after, (recover path).perform host =
        (.ok (before, { counting before with corrupted := 1, truncated := true }), after) ∧
      after.disk.content? path = some (before.flatMap (·.frame)) := by
  obtain ⟨place, id, stored⟩ := Host.content?_eq_some_iff.1 content
  have hfront := frameRun_frames fun other hmem => fit other (List.mem_append_left _ hmem)
  obtain ⟨hnone, hne⟩ := damage.split?_eq_none (fit record (by simp))
  obtain ⟨hfound, hintact, hleftover⟩ := hfront.parse_before hnone
  obtain ⟨after, hrecover, hsound, hafter⟩ :=
    exists_recover_damaged sound stored (by rwa [hleftover])
  refine ⟨after, ?_, ?_⟩
  · rw [hrecover, report_eq, hfound, if_neg (by rwa [hleftover])]
  · rw [hintact] at hafter
    exact Host.content?_eq_some_iff.2 ⟨place, id, hafter⟩

/-- Two bytes of the payload of the second of three frames are changed. -/
theorem Recovery.recover_damaged_payload :
    ∃ (host after : Host) (path : Path) (first second third : Record) (bytes : Bytes),
      Damage second ([third].flatMap (·.frame)) bytes ∧
      host.disk.content? path = some ([first].flatMap (·.frame) ++ bytes) ∧
      (recover path).perform host = (.ok ([first],
        { recovered := 1, corrupted := 1, lastLsn := 7, truncated := true }), after) ∧
      after.disk.content? path = some ([first].flatMap (·.frame)) := by
  let first : Record := ⟨7, .one (.put [1] [2]), 0⟩
  let second : Record := ⟨8, .one (.put [1] [3]), 0⟩
  let third : Record := ⟨9, .one (.delete [1]), 0⟩
  let changed : Bytes :=
    second.frame.take 20 ++ [255, 255] ++ second.frame.drop 22 ++ [third].flatMap (·.frame)
  have hdamage : Damage second ([third].flatMap (·.frame)) changed :=
    @Damage.burst second _ _ ((second.frame.drop 20).take 2) _ _ .payload (by decide +kernel)
      (by decide +kernel) (by decide +kernel) (by decide +kernel) (by decide +kernel)
      (by decide +kernel)
  obtain ⟨host, hsound, hcontent⟩ :=
    @Host.exists_storing ([first].flatMap (·.frame) ++ changed) (by decide +kernel)
  have hfit : ∀ other ∈ [first] ++ second :: [third],
      Payload.length other.operation ≤ Frame.payloadLimit := by
    decide +kernel
  obtain ⟨after, hrecover, hkept⟩ := recover_damaged hfit hdamage hsound hcontent
  exact ⟨host, after, .ofText "file", first, second, third, changed, hdamage, hcontent, hrecover,
    hkept⟩

end OrderedStore.Log
