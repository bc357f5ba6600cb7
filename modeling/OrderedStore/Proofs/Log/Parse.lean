import OrderedStore.Proofs.Log.Codec

/-!
# The records of a log

What the bytes of a log say: the records of the frames at its front, and what is left over from the
first place on that does not read as a frame.

Main statements:

- `records_append`: frames behind a log without leftover are read behind its records.
- `records_torn`: a frame of which the end is missing is not read at all.
- `records_take`: a log that was cut gives the first of its records.
-/

namespace OrderedStore.Log

/-! ## One frame -/

namespace Frame

/-- The record of the frame at the front of `bytes`, and what stands behind it; `none` if there is
no frame that reads. -/
def split? (bytes : Bytes) : Option (Record × Bytes) :=
  if bytes.length < Header.size then none
  else
    let header := Header.decode (bytes.take Header.size)
    let payload := (bytes.drop Header.size).take header.length
    if payloadLimit < header.length then none
    else if payload.length < header.length then none
    else
      match Frame.record header payload with
      | .error _ => none
      | .ok record => some (record, (bytes.drop Header.size).drop header.length)

/-- What a frame is made of. -/
theorem split?_eq_some_iff {bytes rest : Bytes} {record : Record} :
    split? bytes = some (record, rest) ↔
      ∃ head payload, bytes = head ++ (payload ++ rest) ∧ head.length = Header.size ∧
        payload.length = (Header.decode head).length ∧ payload.length ≤ payloadLimit ∧
        Frame.record (Header.decode head) payload = .ok record := by
  constructor
  · intro h
    unfold split? at h
    split at h
    · cases h
    · rename_i hsize
      simp only at h
      split at h
      · cases h
      · rename_i hlimit
        split at h
        · cases h
        · rename_i hshort
          split at h
          · cases h
          · rename_i found hrecord
            cases h
            have hlength := List.length_take_le (Header.decode (bytes.take Header.size)).length
              (bytes.drop Header.size)
            refine ⟨bytes.take Header.size, _, ?_, ?_, ?_, ?_, hrecord⟩
            · rw [List.take_append_drop, List.take_append_drop]
            · rw [List.length_take]
              omega
            · omega
            · omega
  · rintro ⟨head, payload, rfl, hhead, hpayload, hlimit, hrecord⟩
    have htake : (head ++ (payload ++ rest)).take Header.size = head := by
      rw [← hhead, List.take_left]
    have hdrop : (head ++ (payload ++ rest)).drop Header.size = payload ++ rest := by
      rw [← hhead, List.drop_left]
    unfold split?
    rw [if_neg (by simp only [List.length_append]; omega)]
    simp only [htake, hdrop]
    rw [← hpayload, List.take_left, List.drop_left, if_neg (Nat.not_lt.2 hlimit),
      if_neg (Nat.lt_irrefl _), hrecord]

/-- How far the frame at the front of some bytes reaches, by what its header says. -/
def reach (bytes : Bytes) : Nat :=
  Header.size + (Header.decode bytes).length

theorem reach_le_of_decode {bytes : Bytes} {record : Record} (h : decode bytes = .ok record) :
    reach bytes ≤ bytes.length := by
  unfold decode at h
  split at h
  · cases h
  · simp only at h
    split at h
    · cases h
    · simp only [List.length_take, List.length_drop, reach] at *
      omega

/-- A frame is read where one can be decoded that announces no more than a payload can have. -/
theorem split?_eq_some_iff_decode {bytes rest : Bytes} {record : Record} :
    split? bytes = some (record, rest) ↔
      (Header.decode bytes).length ≤ payloadLimit ∧ decode bytes = .ok record ∧
        rest = bytes.drop (reach bytes) := by
  have hsize : (bytes.take Header.size).length < Header.size ↔ bytes.length < Header.size := by
    rw [List.length_take]
    omega
  unfold split? decode reach
  rw [Header.decode_take, ← List.drop_drop]
  simp only [hsize]
  by_cases hshort : bytes.length < Header.size
  · simp [hshort]
  rw [if_neg hshort, if_neg hshort]
  by_cases hlimit : payloadLimit < (Header.decode bytes).length
  · simp [hlimit, Nat.not_le.2 hlimit]
  rw [if_neg hlimit]
  split
  · simp
  · cases Frame.record (Header.decode bytes) _ with
    | error e => simp
    | ok found => simp [Nat.not_lt.1 hlimit, eq_comm]

theorem split?_append {bytes rest : Bytes} {record : Record}
    (h : split? bytes = some (record, rest)) (more : Bytes) :
    split? (bytes ++ more) = some (record, rest ++ more) := by
  obtain ⟨head, payload, rfl, hrest⟩ := split?_eq_some_iff.1 h
  exact split?_eq_some_iff.2 ⟨head, payload, by simp, hrest⟩

/-- A frame reads without what stands behind it. -/
theorem exists_front {bytes rest : Bytes} {record : Record}
    (h : split? bytes = some (record, rest)) :
    ∃ front, bytes = front ++ rest ∧ split? front = some (record, []) := by
  obtain ⟨head, payload, rfl, hrest⟩ := split?_eq_some_iff.1 h
  exact ⟨head ++ payload, by simp, split?_eq_some_iff.2 ⟨head, payload, by simp, hrest⟩⟩

theorem length_pos {front : Bytes} {record : Record} (h : split? front = some (record, [])) :
    0 < front.length := by
  obtain ⟨head, payload, rfl, hhead, _⟩ := split?_eq_some_iff.1 h
  simp only [List.length_append, hhead, Header.size]
  omega

/-- Without its end a frame does not read. -/
theorem split?_take {front : Bytes} {record : Record} (h : split? front = some (record, []))
    {count : Nat} (short : count < front.length) : split? (front.take count) = none := by
  cases htake : split? (front.take count) with
  | none => rfl
  | some pair =>
    obtain ⟨record', rest⟩ := pair
    -- If a part of the frame read, the rest of it would be left over by the whole.
    have hwhole := split?_append htake (front.drop count)
    rw [List.take_append_drop, h] at hwhole
    have hnil : rest ++ front.drop count = [] := by
      simp only [Option.some.injEq, Prod.mk.injEq] at hwhole
      exact hwhole.2.symm
    have hdrop := (List.append_eq_nil_iff.1 hnil).2
    have hlength := List.drop_eq_nil_iff.1 hdrop
    omega

@[simp]
theorem split?_nil : split? [] = none :=
  rfl

theorem split?_ofPayload {record : Record}
    (h : Payload.length record.operation ≤ payloadLimit) :
    split? (ofPayload record.lsn (Payload.encode record)) = some (record, []) := by
  have hlength : (Payload.encode record).length ≤ payloadLimit := by
    rwa [Payload.length_encode]
  have hfield : (Payload.encode record).length < Bytes.fieldSize 4 :=
    Nat.lt_of_le_of_lt hlength (by decide)
  have hheader := Header.decode_encode ⟨record.lsn, checksum record.lsn (Payload.encode record),
    (Payload.encode record).length⟩ hfield []
  rw [List.append_nil] at hheader
  refine split?_eq_some_iff.2 ⟨_, Payload.encode record, by rw [List.append_nil]; rfl,
    Header.length_encode _, ?_, hlength, ?_⟩
  · rw [hheader]
  · rw [hheader]
    exact record_ofPayload h

end Frame

/-! ## A whole log -/

theorem Frame.length_lt_of_split? {bytes rest : Bytes} {record : Record}
    (h : Frame.split? bytes = some (record, rest)) : rest.length < bytes.length := by
  obtain ⟨front, rfl, hfront⟩ := Frame.exists_front h
  have := Frame.length_pos hfront
  rw [List.length_append]
  omega

/-- The records at the front of a log, and what is left over behind them. -/
def parse (bytes : Bytes) : List Record × Bytes :=
  match _h : Frame.split? bytes with
  | none => ([], bytes)
  | some (record, rest) => (record :: (parse rest).1, (parse rest).2)
termination_by bytes.length
decreasing_by
  all_goals exact Frame.length_lt_of_split? _h

/-- The records of a log. -/
def records (bytes : Bytes) : List Record :=
  (parse bytes).1

/-- What is left over from the first place on that does not read as a frame. -/
def leftover (bytes : Bytes) : Bytes :=
  (parse bytes).2

section Parse

variable {bytes front rest : Bytes} {record : Record}

theorem parse_of_none (h : Frame.split? bytes = none) :
    records bytes = [] ∧ leftover bytes = bytes := by
  unfold records leftover parse
  split <;> simp_all

theorem parse_of_some (h : Frame.split? bytes = some (record, rest)) :
    records bytes = record :: records rest ∧ leftover bytes = leftover rest := by
  unfold records leftover
  -- The definition is opened on this side only: `rest` is to stay as it is.
  conv => enter [1]; rw [parse]
  conv => enter [2]; rw [parse]
  split <;> simp_all

@[simp]
theorem records_nil : records [] = [] :=
  (parse_of_none Frame.split?_nil).1

@[simp]
theorem leftover_nil : leftover [] = [] :=
  (parse_of_none Frame.split?_nil).2

/-- A log is read frame by frame. -/
theorem parse_induction {motive : Bytes → Prop}
    (stop : ∀ bytes, Frame.split? bytes = none → motive bytes)
    (next : ∀ front record rest, Frame.split? front = some (record, []) → motive rest →
      motive (front ++ rest)) (bytes : Bytes) : motive bytes := by
  induction hlength : bytes.length using Nat.strongRecOn generalizing bytes with
  | ind length ih =>
    cases hsplit : Frame.split? bytes with
    | none => exact stop bytes hsplit
    | some pair =>
      obtain ⟨record, rest⟩ := pair
      have hlt := Frame.length_lt_of_split? hsplit
      obtain ⟨front, rfl, hfront⟩ := Frame.exists_front hsplit
      exact next front record rest hfront (ih _ (hlength ▸ hlt) rest rfl)

theorem parse_front (h : Frame.split? front = some (record, [])) (rest : Bytes) :
    records (front ++ rest) = record :: records rest ∧ leftover (front ++ rest) = leftover rest :=
  parse_of_some (Frame.split?_append h rest)

/-- Behind a log without leftover reading goes on. -/
theorem parse_append (clean : leftover bytes = []) (more : Bytes) :
    records (bytes ++ more) = records bytes ++ records more ∧
      leftover (bytes ++ more) = leftover more := by
  induction bytes using parse_induction with
  | stop bytes hnone =>
    rw [(parse_of_none hnone).2] at clean
    subst clean
    simp
  | next front record rest hfront ih =>
    have hwhole := parse_front hfront rest
    rw [hwhole.2] at clean
    have hrest := ih clean
    have hmore := parse_front hfront (rest ++ more)
    rw [List.append_assoc, hmore.1, hmore.2, hwhole.1, hrest.1, hrest.2]
    exact ⟨rfl, rfl⟩

/-- A log consists of whole frames and a leftover. -/
theorem exists_clean (bytes : Bytes) :
    ∃ clean, bytes = clean ++ leftover bytes ∧ leftover clean = [] ∧
      records clean = records bytes := by
  induction bytes using parse_induction with
  | stop bytes hnone =>
    refine ⟨[], ?_, leftover_nil, ?_⟩
    · rw [(parse_of_none hnone).2]
      rfl
    · rw [(parse_of_none hnone).1, records_nil]
  | next front record rest hfront ih =>
    obtain ⟨clean, hbytes, hclean, hrecords⟩ := ih
    have hwhole := parse_front hfront rest
    have hfirst := parse_front hfront clean
    refine ⟨front ++ clean, ?_, ?_, ?_⟩
    · rw [hwhole.2, List.append_assoc, ← hbytes]
    · rw [hfirst.2, hclean]
    · rw [hfirst.1, hwhole.1, hrecords]

/-- The whole frames at the front of a log. -/
def intact (bytes : Bytes) : Bytes :=
  bytes.take (bytes.length - (leftover bytes).length)

theorem intact_append_leftover (bytes : Bytes) : intact bytes ++ leftover bytes = bytes := by
  obtain ⟨clean, hbytes, _, _⟩ := exists_clean bytes
  have hlength : bytes.length - (leftover bytes).length = clean.length := by
    have := congrArg List.length hbytes
    rw [List.length_append] at this
    omega
  have htake : intact bytes = clean := by
    rw [intact, hlength]
    conv => enter [1, 2]; rw [hbytes]
    exact List.take_left
  rw [htake]
  exact hbytes.symm

/-- Cut behind its last whole frame, a log keeps its records and has no leftover. -/
theorem parse_intact (bytes : Bytes) :
    records (intact bytes) = records bytes ∧ leftover (intact bytes) = [] := by
  obtain ⟨clean, hbytes, hclean, hrecords⟩ := exists_clean bytes
  have hintact : intact bytes = clean :=
    List.append_cancel_right ((intact_append_leftover bytes).trans hbytes)
  rw [hintact]
  exact ⟨hrecords, hclean⟩

/-- A frame behind a log without leftover is read behind its records. -/
theorem records_append (clean : leftover bytes = [])
    (frame : Frame.split? front = some (record, [])) :
    records (bytes ++ front) = records bytes ++ [record] ∧ leftover (bytes ++ front) = [] := by
  have hfront := parse_front frame []
  rw [List.append_nil, records_nil, leftover_nil] at hfront
  have hwhole := parse_append clean front
  rw [hwhole.1, hwhole.2, hfront.1, hfront.2]
  exact ⟨rfl, rfl⟩

/-- Without its end it is not read. -/
theorem records_torn (clean : leftover bytes = [])
    (frame : Frame.split? front = some (record, [])) {count : Nat} (short : count < front.length) :
    records (bytes ++ front.take count) = records bytes := by
  have hnone := parse_of_none (Frame.split?_take frame short)
  rw [(parse_append clean _).1, hnone.1, List.append_nil]

/-- A log that was cut gives the first of its records. -/
theorem records_take (bytes : Bytes) (count : Nat) :
    records (bytes.take count) <+: records bytes := by
  induction bytes using parse_induction generalizing count with
  | stop bytes hnone =>
    have htake : Frame.split? (bytes.take count) = none := by
      cases h : Frame.split? (bytes.take count) with
      | none => rfl
      | some pair =>
        have hwhole := Frame.split?_append h (bytes.drop count)
        rw [List.take_append_drop, hnone] at hwhole
        cases hwhole
    rw [(parse_of_none htake).1]
    exact List.nil_prefix
  | next front record rest hfront ih =>
    rw [(parse_front hfront rest).1]
    -- The cut is in the first frame, or behind it.
    by_cases hshort : count < front.length
    · have hnone := Frame.split?_take hfront hshort
      rw [List.take_append_of_le_length (Nat.le_of_lt hshort), (parse_of_none hnone).1]
      exact List.nil_prefix
    · rw [List.take_append, List.take_of_length_le (Nat.not_lt.1 hshort),
        (parse_front hfront _).1]
      exact List.cons_prefix_cons.2 ⟨rfl, ih _⟩

end Parse

end OrderedStore.Log
