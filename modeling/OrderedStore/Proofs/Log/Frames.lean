import OrderedStore.Proofs.Log.Writing

/-!
# Runs of frames

What a frame is made of is said here without reading one, and what a log keeps without walking it:
the longest run of frames at its front. Reading the log frame by frame finds exactly that run.

Main definitions:

- `Log.ValidFrame`: the bytes of a frame with its record.
- `Log.FrameRun`: the bytes of frames in a row with their records.
- `Log.LongestRun`: a run of frames at the front of some bytes that holds all others.

Main statements: `Log.Frame.split?_iff_validFrame`, `Log.longestRun_intact`.
-/

namespace OrderedStore.Log

variable {bytes front other frame rest : Bytes} {record : Record} {found found' : List Record}

/-! ## One frame -/

/-- What a header says of the payload behind it: its length, which is limited, and the checksum
over sequence number and payload. The payload holds a record with the sequence number of the
header. -/
structure Header.Announces (header : Header) (payload : Bytes) (record : Record) : Prop where
  length : header.length = payload.length
  limited : payload.length ≤ Frame.payloadLimit
  checksum : header.checksum =
    Checksum.crc32 (Bytes.littleEndian 8 header.lsn.toNat ++ payload)
  decodes : Payload.decode payload = .ok record
  lsn : record.lsn = header.lsn

/-- A header, and the payload that it announces. -/
def ValidFrame (frame : Bytes) (record : Record) : Prop :=
  ∃ (header : Header) (payload : Bytes), frame = header.encode ++ payload ∧
    header.Announces payload record

theorem Header.Announces.length_lt {header : Header} {payload : Bytes}
    (h : header.Announces payload record) : header.length < Bytes.fieldSize 4 := by
  rw [h.length]
  exact Nat.lt_of_le_of_lt h.limited (by decide)

theorem Frame.record_eq_ok_iff {header : Header} {payload : Bytes} :
    Frame.record header payload = .ok record ↔
      header.checksum = Checksum.crc32 (Bytes.littleEndian 8 header.lsn.toNat ++ payload) ∧
        Payload.decode payload = .ok record ∧ record.lsn = header.lsn := by
  unfold Frame.record Frame.checksum
  constructor
  · intro h
    split at h
    · cases h
    · rename_i hchecksum
      split at h
      · cases h
      · rename_i decoded hdecode
        split at h
        · cases h
        · rename_i hlsn
          cases h
          exact ⟨(not_not.1 hchecksum).symm, hdecode, not_not.1 hlsn⟩
  · rintro ⟨hchecksum, hdecode, hlsn⟩
    rw [if_neg (not_not.2 hchecksum.symm), hdecode]
    exact if_neg (not_not.2 hlsn)

/-- Sixteen bytes are the header that is read from them. -/
theorem Header.encode_decode {head : Bytes} (h : head.length = Header.size) :
    (Header.decode head).encode = head := by
  have hsize : head.length = 16 := h
  have hfirst : (head.take 8).length = 8 := by simp [hsize]
  have hsecond : ((head.drop 8).take 4).length = 4 := by simp [hsize]
  have hthird : ((head.drop 12).take 4).length = 4 := by simp [hsize]
  -- The numbers of the header are cut off at the widths of their fields, which hold them anyway.
  have hlsn : (UInt64.ofNat (Bytes.ofLittleEndian (head.take 8))).toNat =
      Bytes.ofLittleEndian (head.take 8) := by
    apply UInt64.toNat_ofNat_of_lt'
    have := Bytes.ofLittleEndian_lt (head.take 8)
    rwa [hfirst] at this
  have hsum : (UInt32.ofNat (Bytes.ofLittleEndian ((head.drop 8).take 4))).toNat =
      Bytes.ofLittleEndian ((head.drop 8).take 4) := by
    apply UInt32.toNat_ofNat_of_lt'
    have := Bytes.ofLittleEndian_lt ((head.drop 8).take 4)
    rwa [hsecond] at this
  have hfield : ∀ {field : Bytes} {width : Nat}, field.length = width →
      Bytes.littleEndian width (Bytes.ofLittleEndian field) = field := by
    rintro field _ rfl
    exact Bytes.littleEndian_ofLittleEndian field
  calc
    (Header.decode head).encode
        = head.take 8 ++ (head.drop 8).take 4 ++ (head.drop 12).take 4 := by
          simp only [Header.decode, Header.encode, hlsn, hsum, hfield hfirst, hfield hsecond,
            hfield hthird]
    _ = head.take 8 ++ ((head.drop 8).take 4 ++ (head.drop 8).drop 4) := by
          have hlast : (head.drop 12).take 4 = head.drop 12 := by
            apply List.take_of_length_le
            simp [hsize]
          rw [List.append_assoc, List.drop_drop, hlast]
    _ = head := by rw [List.take_append_drop, List.take_append_drop]

/-- What stands at the front of some bytes reads as a frame just if it is one. -/
theorem Frame.split?_iff_validFrame :
    Frame.split? bytes = some (record, rest) ↔
      ∃ frame, bytes = frame ++ rest ∧ ValidFrame frame record := by
  rw [Frame.split?_eq_some_iff]
  constructor
  · rintro ⟨head, payload, rfl, hhead, hlength, hlimit, hrecord⟩
    obtain ⟨hchecksum, hdecode, hlsn⟩ := Frame.record_eq_ok_iff.1 hrecord
    refine ⟨head ++ payload, (List.append_assoc ..).symm, Header.decode head, payload, ?_, ?_⟩
    · rw [Header.encode_decode hhead]
    · exact ⟨hlength.symm, hlimit, hchecksum, hdecode, hlsn⟩
  · rintro ⟨_, rfl, header, payload, rfl, h⟩
    have hdecode := Header.decode_encode header h.length_lt []
    rw [List.append_nil] at hdecode
    refine ⟨header.encode, payload, List.append_assoc .., header.length_encode, ?_,
      h.limited, ?_⟩
    · rw [hdecode, h.length]
    · rw [hdecode]
      exact Frame.record_eq_ok_iff.2 ⟨h.checksum, h.decodes, h.lsn⟩

theorem ValidFrame.split? (h : ValidFrame frame record) : Frame.split? frame = some (record, []) :=
  Frame.split?_iff_validFrame.2 ⟨frame, (List.append_nil _).symm, h⟩

theorem validFrame_of_split? (h : Frame.split? frame = some (record, [])) :
    ValidFrame frame record := by
  obtain ⟨frame', heq, hvalid⟩ := Frame.split?_iff_validFrame.1 h
  rwa [heq, List.append_nil]

/-- The frame that is written for a record that is not too large. -/
theorem validFrame_frame (fits : Payload.length record.operation ≤ Frame.payloadLimit) :
    ValidFrame record.frame record :=
  validFrame_of_split? (Frame.split?_ofPayload fits)

/-! ## Frames in a row -/

/-- Frames in a row, with their records. -/
inductive FrameRun : Bytes → List Record → Prop where
  | nil : FrameRun [] []
  | cons {frame rest : Bytes} {record : Record} {found : List Record} :
      ValidFrame frame record → FrameRun rest found → FrameRun (frame ++ rest) (record :: found)

/-- Frames in a row are read as their records, and nothing is left over. -/
theorem FrameRun.parse (h : FrameRun front found) :
    records front = found ∧ leftover front = [] := by
  induction h with
  | nil => exact ⟨records_nil, leftover_nil⟩
  | cons hframe _ ih =>
    obtain ⟨hrecords, hleftover⟩ := parse_front hframe.split? _
    rw [hrecords, hleftover, ih.1, ih.2]
    exact ⟨rfl, rfl⟩

/-- A log without leftover consists of frames in a row. -/
theorem frameRun_of_clean (clean : leftover bytes = []) : FrameRun bytes (records bytes) := by
  induction bytes using parse_induction with
  | stop bytes hnone =>
    obtain ⟨hrecords, hleftover⟩ := parse_of_none hnone
    rw [hleftover] at clean
    rw [hrecords, clean]
    exact .nil
  | next frame record rest hframe ih =>
    obtain ⟨hrecords, hleftover⟩ := parse_front hframe rest
    rw [hleftover] at clean
    rw [hrecords]
    exact .cons (validFrame_of_split? hframe) (ih clean)

theorem FrameRun.append {back : Bytes} (h : FrameRun front found) (h' : FrameRun back found') :
    FrameRun (front ++ back) (found ++ found') := by
  induction h with
  | nil => exact h'
  | cons hframe _ ih =>
    rw [List.append_assoc]
    exact .cons hframe ih

/-- The frames that are written for records in order. -/
theorem frameRun_frames
    (fit : ∀ record ∈ found, Payload.length record.operation ≤ Frame.payloadLimit) :
    FrameRun (found.flatMap (·.frame)) found := by
  induction found with
  | nil => exact .nil
  | cons record found ih =>
    rw [List.flatMap_cons]
    refine .cons (validFrame_frame (fit record (List.mem_cons_self ..))) (ih ?_)
    exact fun other hmem => fit other (List.mem_cons_of_mem _ hmem)

/-- Frames in a row at the front of some bytes, of which no longer run is there. -/
structure LongestRun (bytes front : Bytes) (found : List Record) : Prop where
  initial : front <+: bytes
  run : FrameRun front found
  longest : ∀ other found', other <+: bytes → FrameRun other found' →
    other <+: front ∧ found' <+: found

theorem LongestRun.unique (h : LongestRun bytes front found) (h' : LongestRun bytes other found') :
    front = other ∧ found = found' := by
  obtain ⟨hfront, hfound⟩ := h'.longest front found h.initial h.run
  obtain ⟨hother, hfound'⟩ := h.longest other found' h'.initial h'.run
  exact ⟨hfront.eq_of_length (Nat.le_antisymm hfront.length_le hother.length_le),
    hfound.eq_of_length (Nat.le_antisymm hfound.length_le hfound'.length_le)⟩

/-- Reading frame by frame finds the longest run. -/
theorem longestRun_intact (bytes : Bytes) : LongestRun bytes (intact bytes) (records bytes) where
  initial := List.take_prefix ..
  run := by
    obtain ⟨hrecords, hclean⟩ := parse_intact bytes
    rw [← hrecords]
    exact frameRun_of_clean hclean
  longest := by
    rintro other found' ⟨back, rfl⟩ hrun
    obtain ⟨hfound, hclean⟩ := hrun.parse
    obtain ⟨hrecords, hleftover⟩ := parse_append hclean back
    -- What is left over behind the frames is left over of what follows them.
    have hother : other <+: intact (other ++ back) := by
      refine List.prefix_of_prefix_length_le (List.prefix_append ..) (List.take_prefix ..) ?_
      have := congrArg List.length (intact_append_leftover (other ++ back))
      have hback := congrArg List.length (intact_append_leftover back)
      rw [List.length_append, List.length_append, hleftover] at this
      rw [List.length_append] at hback
      omega
    refine ⟨hother, ?_⟩
    rw [hrecords, hfound]
    exact List.prefix_append ..

/-- Frames in a row, and behind them something that does not read as a frame. -/
theorem FrameRun.parse_before (h : FrameRun front found) (none : Frame.split? rest = none) :
    records (front ++ rest) = found ∧ intact (front ++ rest) = front ∧
      leftover (front ++ rest) = rest := by
  obtain ⟨hfound, hclean⟩ := h.parse
  obtain ⟨hrest, hleft⟩ := parse_of_none none
  obtain ⟨hrecords, hleftover⟩ := parse_append hclean rest
  have hsplit := intact_append_leftover (front ++ rest)
  rw [hleftover, hleft] at hsplit ⊢
  exact ⟨by rw [hrecords, hfound, hrest, List.append_nil], List.append_cancel_right hsplit, rfl⟩

end OrderedStore.Log
