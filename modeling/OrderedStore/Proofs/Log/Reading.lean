import OrderedStore.Log.Recovery
import OrderedStore.Proofs.Host.Stored
import OrderedStore.Proofs.Log.Parse

/-!
# Reading a log file

A stream over a file gives the records that the bytes of the file hold (`records`), whatever its
chunks are, and recovery cuts off what is left over behind them (`leftover`).

Main definitions:

- `Log.Stream.reading`: what a stream tells about the bytes that it stands before, said with the
  decoder of a single frame.

Main statements: `Log.Stream.ensures_next_reading`, `Log.Stream.ensures_drain`.
-/

namespace OrderedStore.Log

variable {conduct : Conduct} {stop : Host → Prop} {host : Host} {target : Location}
  {handle : Handle} {bytes rest : Bytes}

namespace Stream

/-- What a stream over a file of given bytes still has to give out. -/
structure Stands (stream : Stream) (handle : Handle) (bytes rest : Bytes) : Prop where
  handle : stream.handle = handle
  inside : stream.offset ≤ bytes.length
  rest : rest = stream.pending ++ bytes.drop stream.offset

theorem stands_start (handle : Handle) (bytes : Bytes) :
    Stands { handle } handle bytes bytes :=
  ⟨rfl, Nat.zero_le _, rfl⟩

/-- What follows a chunk, whether the file has more than the chunk or ends in it. -/
theorem drop_behind_chunk (bytes : Bytes) (offset size : Nat) :
    bytes.drop (offset + ((bytes.drop offset).take size).length) =
      (bytes.drop offset).drop size := by
  rw [List.length_take, ← List.drop_drop, ← List.drop_eq_drop_min]

theorem inside_of_chunk {offset : Nat} (inside : offset ≤ bytes.length) (size : Nat) :
    offset + ((bytes.drop offset).take size).length ≤ bytes.length := by
  simp only [List.length_take, List.length_drop]
  omega

variable {stream : Stream}

/-- Fetching does not depend on how much was read ahead. -/
theorem ensures_fetch (sound : host.Sound)
    (file : host.view.file? target = some (handle.id, bytes))
    (stands : stream.Stands handle bytes rest) {count : Nat} (same : stop host)
    {post : Except Error Bytes × Stream → Host → Prop}
    (done : ∀ stream' : Stream, stream'.Stands handle bytes (rest.drop count) →
      stream'.position = stream.position → post (.ok (rest.take count), stream') host) :
    (stream.fetch count).Ensures conduct stop post host := by
  obtain ⟨rfl, inside, rfl⟩ := stands
  unfold fetch
  have hfront : (stream.pending.take count).length = min count stream.pending.length :=
    List.length_take
  by_cases henough : count ≤ stream.pending.length
  · -- What was read ahead is enough.
    have hmissing : count - (stream.pending.take count).length = 0 := by omega
    rw [if_pos hmissing]
    have htake : (stream.pending ++ bytes.drop stream.offset).take count =
        stream.pending.take count := List.take_append_of_le_length henough
    rw [htake, List.drop_append_of_le_length henough] at done
    exact done { stream with pending := stream.pending.drop count } ⟨rfl, inside, rfl⟩ rfl
  · have hall : stream.pending.take count = stream.pending :=
      List.take_of_length_le (by omega)
    have hmissing : count - stream.pending.length ≠ 0 := by omega
    rw [hall, if_neg hmissing]
    have htake : (stream.pending ++ bytes.drop stream.offset).take count =
        stream.pending ++ (bytes.drop stream.offset).take (count - stream.pending.length) := by
      rw [List.take_append, List.take_of_length_le (by omega)]
    have hdrop : (stream.pending ++ bytes.drop stream.offset).drop count =
        (bytes.drop stream.offset).drop (count - stream.pending.length) := by
      rw [List.drop_append, List.drop_of_length_le (by omega), List.nil_append]
    rw [htake, hdrop] at done
    generalize count - stream.pending.length = missing at *
    refine Action.Ensures.script_bind (Action.ensures_read file sound inside same ?_)
    by_cases hlarge : chunkSize ≤ missing
    · -- All of the chunk is asked for, and nothing is kept.
      rw [Nat.max_eq_left hlarge]
      simp only [hlarge, if_true]
      refine done _ ⟨rfl, inside_of_chunk inside missing, ?_⟩ rfl
      rw [List.nil_append, drop_behind_chunk]
    · -- The chunk is longer than what is missing, and the rest of it is kept.
      have hless : missing ≤ chunkSize := by omega
      rw [Nat.max_eq_right hless]
      simp only [hlarge, if_false]
      have hchunk : ((bytes.drop stream.offset).take chunkSize).take missing =
          (bytes.drop stream.offset).take missing := by
        rw [List.take_take, Nat.min_eq_left hless]
      rw [hchunk]
      refine done _ ⟨rfl, inside_of_chunk inside chunkSize, ?_⟩ rfl
      have hsplit : (bytes.drop stream.offset).drop chunkSize =
          ((bytes.drop stream.offset).drop missing).drop (chunkSize - missing) := by
        calc
          (bytes.drop stream.offset).drop chunkSize
              = (bytes.drop stream.offset).drop (missing + (chunkSize - missing)) := by
                  rw [Nat.add_sub_cancel' hless]
          _ = ((bytes.drop stream.offset).drop missing).drop (chunkSize - missing) :=
                List.drop_drop.symm
      rw [drop_behind_chunk, hsplit, List.drop_take, List.take_append_drop]

/-- A fault of decoding, as a stream that knows the offset tells it. -/
def located (offset : Nat) : Error → Error
  | .logCorruption .shortFrame => .logCorruption (.partialHeader offset)
  | .logCorruption .truncatedFrame => .logCorruption (.partialPayload offset)
  | fault => fault

/-- The fault of a whole payload is told as it is. -/
theorem located_of_record {header : Header} {payload : Bytes} {fault : Error}
    (h : Frame.record header payload = .error fault) (offset : Nat) :
    located offset fault = fault := by
  unfold Frame.record at h
  grind [located]

/-- What a stream tells about the bytes that it stands before, and where it stands then. -/
structure Reading where
  reply : Except Error (Option Record)
  rest : Bytes
  position : Nat

/-- The reading of a stream at a position: what the decoder says, except at the end of the file and
where a header announces too much. A payload that could not be decoded is passed over, but not
counted. -/
def reading (position : Nat) (rest : Bytes) : Reading :=
  if rest = [] then ⟨.ok none, [], position⟩
  else if Header.size ≤ rest.length ∧ Frame.payloadLimit < (Header.decode rest).length then
    ⟨.error (.logCorruption (.implausibleLength (Header.decode rest).length position)),
      rest.drop Header.size, position⟩
  else
    match Frame.decode rest with
    | .error fault => ⟨.error (located position fault), rest.drop (Frame.reach rest), position⟩
    | .ok record => ⟨.ok (some record), rest.drop (Frame.reach rest), position + Frame.reach rest⟩

theorem reading_of_ok {record : Record}
    (limited : (Header.decode rest).length ≤ Frame.payloadLimit)
    (decoded : Frame.decode rest = .ok record) (position : Nat) :
    reading position rest =
      ⟨.ok (some record), rest.drop (Frame.reach rest), position + Frame.reach rest⟩ := by
  have hne : rest ≠ [] := by
    rintro rfl
    cases decoded
  unfold reading
  rw [if_neg hne, if_neg fun h => Nat.not_lt.2 limited h.2, decoded]

theorem reading_of_error {fault : Error} (nonempty : rest ≠ [])
    (limited : Header.size ≤ rest.length → (Header.decode rest).length ≤ Frame.payloadLimit)
    (faulty : Frame.decode rest = .error fault) (position : Nat) :
    reading position rest =
      ⟨.error (located position fault), rest.drop (Frame.reach rest), position⟩ := by
  unfold reading
  rw [if_neg nonempty, if_neg fun h => Nat.not_lt.2 (limited h.1) h.2, faulty]

/-- Where no frame reads, a stream tells a failure and does not move its position. -/
theorem exists_reading_of_none (nonempty : rest ≠ []) (none : Frame.split? rest = none)
    (position : Nat) : ∃ e left, reading position rest = ⟨.error e, left, position⟩ := by
  unfold reading
  rw [if_neg nonempty]
  split
  · exact ⟨_, _, rfl⟩
  rename_i hlimit
  cases hdecode : Frame.decode rest with
  | error fault => exact ⟨_, _, rfl⟩
  | ok record =>
    have hreach := Frame.reach_le_of_decode hdecode
    have hsize : Header.size ≤ Frame.reach rest := Nat.le_add_right ..
    have hsplit := Frame.split?_eq_some_iff_decode.2 ⟨by omega, hdecode, rfl⟩
    rw [none] at hsplit
    cases hsplit

/-- A stream replies with its reading of the bytes that it stands before, and moves on with it. -/
theorem ensures_next_reading (sound : host.Sound)
    (file : host.view.file? target = some (handle.id, bytes))
    (stands : stream.Stands handle bytes rest) (same : stop host)
    {post : Except Error (Option Record) × Stream → Host → Prop}
    (done : ∀ stream' : Stream,
      stream'.Stands handle bytes (reading stream.position rest).rest →
      stream'.position = (reading stream.position rest).position →
      post ((reading stream.position rest).reply, stream') host) :
    stream.next.Ensures conduct stop post host := by
  unfold next
  refine Script.Ensures.bind (ensures_fetch sound file stands same ?_)
  intro stream' stands' hposition
  unfold reading Frame.decode at done
  have hsize := List.length_take (i := Header.size) (l := rest)
  by_cases hempty : rest = []
  · subst hempty
    rw [if_pos rfl] at done
    simpa using done stream' (by simpa using stands') hposition
  -- An empty read means the end of the file, so it has to be told from a short one.
  have hraw : (rest.take Header.size).isEmpty = false := by
    cases rest with
    | nil => exact absurd rfl hempty
    | cons byte others => rfl
  rw [if_neg hempty] at done
  simp only [hraw]
  -- From here on the stream makes the checks of the decoder, in its order.
  by_cases hshort : rest.length < Header.size
  · rw [if_neg (by omega), if_pos (by omega)] at done
    have hshort' : (rest.take Header.size).length < Header.size := by omega
    simp only [hshort', if_true]
    have hend : ∀ n, rest.drop (Header.size + n) = rest.drop Header.size := by
      intro n
      rw [List.drop_of_length_le (by omega), List.drop_of_length_le (by omega)]
    have := done stream' (by rwa [Frame.reach, hend]) hposition
    rwa [← hposition] at this
  have hwhole : ¬ (rest.take Header.size).length < Header.size := by omega
  simp only [hwhole, if_false]
  rw [Header.decode_take]
  simp only [Nat.not_lt.1 hshort, true_and] at done
  by_cases hlimit : Frame.payloadLimit < (Header.decode rest).length
  · simp only [hlimit, if_true] at done ⊢
    have := done stream' stands' hposition
    rwa [← hposition] at this
  · simp only [hlimit, if_false] at done ⊢
    refine Script.Ensures.bind (ensures_fetch sound file stands' same ?_)
    intro stream'' stands'' hposition'
    rw [List.drop_drop] at stands''
    have hbehind := hposition'.trans hposition
    by_cases hcut : ((rest.drop Header.size).take (Header.decode rest).length).length <
        (Header.decode rest).length
    · simp only [hcut, hwhole, if_true, if_false] at done ⊢
      have := done stream'' stands'' hbehind
      rwa [← hbehind] at this
    · simp only [hcut, hwhole, if_false] at done ⊢
      cases hrecord : Frame.record (Header.decode rest)
          ((rest.drop Header.size).take (Header.decode rest).length) with
      | error fault =>
        simp only [hrecord, located_of_record hrecord] at done
        exact done stream'' stands'' hbehind
      | ok record =>
        rw [hrecord] at done
        refine done _ ⟨stands''.handle, stands''.inside, stands''.rest⟩ ?_
        exact congrArg (· + _) hbehind

/-- The next record is that of the frame at the front. -/
theorem ensures_next (sound : host.Sound) (file : host.view.file? target = some (handle.id, bytes))
    (stands : stream.Stands handle bytes rest) (same : stop host)
    {post : Except Error (Option Record) × Stream → Host → Prop}
    (ended : rest = [] → ∀ stream' : Stream, stream'.position = stream.position →
      post (.ok none, stream') host)
    (damaged : Frame.split? rest = none → rest ≠ [] → ∀ (e : Error) (stream' : Stream),
      stream'.position = stream.position → post (.error e, stream') host)
    (found : ∀ (record : Record) (behind : Bytes) (stream' : Stream),
      Frame.split? rest = some (record, behind) → stream'.Stands handle bytes behind →
      stream'.position + behind.length = stream.position + rest.length →
      post (.ok (some record), stream') host) :
    stream.next.Ensures conduct stop post host := by
  refine ensures_next_reading sound file stands same ?_
  intro stream' stands' hposition
  cases hsplit : Frame.split? rest with
  | none =>
    by_cases hempty : rest = []
    · subst hempty
      exact ended rfl stream' hposition
    · obtain ⟨e, left, hreading⟩ := exists_reading_of_none hempty hsplit stream.position
      rw [hreading] at hposition ⊢
      exact damaged hsplit hempty e stream' hposition
  | some pair =>
    obtain ⟨record, behind⟩ := pair
    obtain ⟨hlimit, hdecode, rfl⟩ := Frame.split?_eq_some_iff_decode.1 hsplit
    have hreach := Frame.reach_le_of_decode hdecode
    rw [reading_of_ok hlimit hdecode] at stands' hposition ⊢
    refine found record _ stream' hsplit stands' ?_
    simp only [hposition, List.length_drop]
    omega

/-- Draining a stream gives the records that are left, and ends in front of what does not read. -/
theorem ensures_drainBehind (sound : host.Sound)
    (file : host.view.file? target = some (handle.id, bytes)) (same : stop host)
    {post : List Record × Option Error × Stream → Host → Prop} {read : List Record} {count : Nat}
    (stands : stream.Stands handle bytes rest) (enough : rest.length < count)
    (done : ∀ (failure : Option Error) (stream' : Stream),
      (failure.isSome ↔ leftover rest ≠ []) →
      stream'.position + (leftover rest).length = stream.position + rest.length →
      post (read.reverse ++ records rest, failure, stream') host) :
    (drainBehind read count stream).Ensures conduct stop post host := by
  induction count generalizing stream rest read with
  | zero => omega
  | succ count ih =>
    unfold drainBehind
    refine Script.Ensures.bind (ensures_next sound file stands same ?_ ?_ ?_)
    -- The file ends, a frame is damaged, or a record is found and the rest follows by induction.
    · rintro rfl stream' hposition
      have := done none stream' (by simp) (by simpa using hposition)
      simpa using this
    · intro hnone hne e stream' hposition
      have hparse := parse_of_none hnone
      rw [hparse.1, hparse.2, List.append_nil] at done
      exact done (some e) stream' (by simpa using hne) (by rw [hposition])
    · intro record behind stream' hsplit stands' hposition
      have hparse := parse_of_some hsplit
      rw [hparse.1, hparse.2] at done
      refine ih stands' ?_ ?_
      · have := Frame.length_lt_of_split? hsplit
        omega
      · intro failure stream'' hfailure hposition'
        have := done failure stream'' hfailure (hposition'.trans hposition)
        simpa using this

end Stream

/-- A stream is started on the file under a path. -/
theorem Stream.ensures_start_stored {path : Path} {id : Nat} {err : Error → Host → Prop}
    (steady : conduct.Steady) (stored : host.Stores path target id bytes) (same : stop host) :
    (Stream.start path).Ensures conduct stop
      (fun stream after => stream = { handle := ⟨id⟩ } ∧ after = host) err host := by
  refine Action.Ensures.bind
    (Action.ensures_openFile_stored (Or.inl rfl) stored same (absurd steady) ?_)
  exact ⟨rfl, rfl⟩

/-- A stream that was just started gives all records of its file. -/
theorem Stream.ensures_drain {id : Nat} (sound : host.Sound)
    (file : host.view.file? target = some (id, bytes)) (same : stop host)
    {post : List Record × Option Error × Stream → Host → Prop}
    (done : ∀ (failure : Option Error) (stream' : Stream),
      (failure.isSome ↔ leftover bytes ≠ []) →
      stream'.position + (leftover bytes).length = bytes.length →
      post (records bytes, failure, stream') host) :
    (Stream.drain { handle := ⟨id⟩ }).Ensures conduct stop post host := by
  unfold drain
  refine Script.Ensures.bind (Script.ensures_size file same ?_)
  refine ensures_drainBehind sound file same (stands_start ⟨id⟩ bytes) (Nat.lt_succ_self _) ?_
  intro failure stream' hfailure hposition
  simpa using done failure stream' hfailure (by simpa using hposition)

end OrderedStore.Log
