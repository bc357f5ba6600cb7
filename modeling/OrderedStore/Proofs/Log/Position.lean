import OrderedStore.Proofs.Log.Frames

/-!
# Where a stream says it stands

A stream counts the bytes of the frames that it gave out the records of, and calls this its
position. It may be asked again after a failure, and it goes on behind the bytes that it had read
by then; these are not counted. So its position is the place just behind the last record that it
gave out exactly if nothing failed before this record.

Main definitions:

- `Log.Stream.asked`: what a stream replies when it is asked again and again.
- `Log.Stream.Passage`: how calls use up the bytes of a file, one after the other.
- `Log.Stream.Placed`: where a position lies beside the last record.

Main statement: `Log.Stream.position_behind_last_iff`.
-/

namespace OrderedStore.Log.Stream

/-! ## Asking again and again -/

/-- What a stream replies when it is asked a number of times, and the stream then. -/
def asked : (count : Nat) → Stream → Script (List (Except Error (Option Record)) × Stream)
  | 0, stream => return ([], stream)
  | count + 1, stream => do
    let (reply, stream) ← stream.next
    let (replies, stream) ← asked count stream
    return (reply :: replies, stream)

/-- The replies of a stream at a position before some bytes, with the bytes that are left and the
position then. -/
def readings : (count position : Nat) → (rest : Bytes) →
    List (Except Error (Option Record)) × Bytes × Nat
  | 0, position, rest => ([], rest, position)
  | count + 1, position, rest =>
    let first := reading position rest
    let (replies, left) := readings count first.position first.rest
    (first.reply :: replies, left)

variable {host : Host} {target : Location} {path : Path} {handle : Handle}
  {bytes rest left : Bytes} {stream : Stream}

theorem ensures_asked (sound : host.Sound) (file : host.view.file? target = some (handle.id, bytes))
    (stands : stream.Stands handle bytes rest) (count : Nat) :
    (asked count stream).Ensures .own (fun _ => True)
      (fun found after => after = host ∧ found.1 = (readings count stream.position rest).1 ∧
        found.2.position = (readings count stream.position rest).2.2) host := by
  induction count generalizing stream rest with
  | zero => exact ⟨rfl, rfl, rfl⟩
  | succ count ih =>
    refine Script.Ensures.bind (ensures_next_reading sound file stands trivial ?_)
    intro stream' hstands hposition
    refine Script.Ensures.bind_of (ih hstands) ?_
    rintro ⟨replies, last⟩ _ ⟨rfl, hreplies, hlast⟩
    rw [hposition] at hreplies hlast
    exact ⟨rfl, congrArg _ hreplies, hlast⟩

/-- A stream over a file can be asked any number of times, and nothing else happens. -/
theorem exists_asked (sound : host.Sound) (content : host.disk.content? path = some bytes)
    (count : Nat) :
    ∃ stream after : Stream, (Stream.start path).perform host = (.ok stream, host) ∧
      (asked count stream).run host = (((readings count 0 bytes).1, after), host) ∧
      after.position = (readings count 0 bytes).2.2 := by
  obtain ⟨place, id, stored⟩ := Host.content?_eq_some_iff.1 content
  have hasked := (ensures_asked sound stored.file (stands_start ⟨id⟩ bytes) count).run
  refine ⟨{ handle := ⟨id⟩ }, ((asked count { handle := ⟨id⟩ }).run host).1.2, ?_, ?_, hasked.2.2⟩
  · exact Action.perform_of_ensures (ensures_start_stored Conduct.steady_own stored trivial)
  · exact Prod.ext (Prod.ext hasked.2.1 rfl) hasked.1

/-! ## What calls make of the bytes -/

/-- What a call makes of the bytes that a stream stands before. -/
inductive Step where
  | read (frame : Bytes) (record : Record)
  | failed (fault : Error) (skipped : Bytes)
  | ended

namespace Step

/-- What the call is answered with. -/
def reply : Step → Except Error (Option Record)
  | .read _ record => .ok (some record)
  | .failed fault _ => .error fault
  | .ended => .ok none

/-- The bytes that are used up. -/
def taken : Step → Bytes
  | .read frame _ => frame
  | .failed _ skipped => skipped
  | .ended => []

/-- The bytes that are counted. -/
def counted : Step → Bytes
  | .read frame _ => frame
  | _ => []

/-- The record that is given out. -/
def record? : Step → Option Record
  | .read _ record => some record
  | _ => none

/-- What went wrong. -/
def fault? : Step → Option Error
  | .failed fault _ => some fault
  | _ => none

/-- A call on a stream before some bytes, and the bytes that it leaves. A record comes from the
frame at the front, a failure uses up some bytes where there is no frame, and at the end of the file
nothing happens. -/
inductive At : Bytes → Step → Bytes → Prop where
  | read {frame rest : Bytes} {record : Record} :
      ValidFrame frame record → At (frame ++ rest) (.read frame record) rest
  | failed {skipped rest : Bytes} {fault : Error} :
      skipped ≠ [] → Frame.split? (skipped ++ rest) = none →
      At (skipped ++ rest) (.failed fault skipped) rest
  | ended : At [] .ended []

end Step

/-- Calls one after the other. -/
inductive Passage : Bytes → List Step → Bytes → Prop where
  | stay {bytes : Bytes} : Passage bytes [] bytes
  | go {bytes middle rest : Bytes} {step : Step} {steps : List Step} :
      step.At bytes middle → Passage middle steps rest → Passage bytes (step :: steps) rest

/-- Whatever a stream tells, it uses up some of what is left. -/
theorem exists_rest_reading (position : Nat) (rest : Bytes) :
    ∃ count, 0 < count ∧ (reading position rest).rest = rest.drop count := by
  have hsize : 0 < Header.size := by decide
  have hreach : 0 < Frame.reach rest := Nat.lt_of_lt_of_le hsize (Nat.le_add_right ..)
  unfold reading
  split
  · rename_i hempty
    exact ⟨1, Nat.one_pos, by rw [hempty]; rfl⟩
  · split
    · exact ⟨Header.size, hsize, rfl⟩
    · split <;> exact ⟨Frame.reach rest, hreach, rfl⟩

theorem exists_step (position : Nat) (rest : Bytes) :
    ∃ (step : Step) (left : Bytes), step.At rest left ∧
      reading position rest = ⟨step.reply, left, position + step.counted.length⟩ := by
  by_cases hempty : rest = []
  · subst hempty
    exact ⟨.ended, [], .ended, rfl⟩
  cases hsplit : Frame.split? rest with
  | none =>
    obtain ⟨fault, left, hreading⟩ := exists_reading_of_none hempty hsplit position
    obtain ⟨count, hpos, hrest⟩ := exists_rest_reading position rest
    have hleft : left = rest.drop count := by rw [← hrest, hreading]
    have hskipped : rest.take count ≠ [] := by
      rw [Ne, List.take_eq_nil_iff]
      exact fun h => h.elim (Nat.pos_iff_ne_zero.1 hpos) hempty
    have hwhole : rest.take count ++ left = rest := by rw [hleft, List.take_append_drop]
    refine ⟨.failed fault (rest.take count), left, ?_, hreading⟩
    have hat : (Step.failed fault (rest.take count)).At (rest.take count ++ left) left :=
      .failed hskipped (hwhole.symm ▸ hsplit)
    rwa [hwhole] at hat
  | some pair =>
    obtain ⟨record, left⟩ := pair
    obtain ⟨frame, rfl, hvalid⟩ := Frame.split?_iff_validFrame.1 hsplit
    obtain ⟨hlimit, hdecode, hleft⟩ := Frame.split?_eq_some_iff_decode.1 hsplit
    have hreach := Frame.reach_le_of_decode hdecode
    have hlength : Frame.reach (frame ++ left) = frame.length := by
      have := congrArg List.length hleft
      rw [List.length_drop, List.length_append] at this
      rw [List.length_append] at hreach
      omega
    refine ⟨.read frame record, left, .read hvalid, ?_⟩
    rw [reading_of_ok hlimit hdecode, ← hleft, hlength]
    rfl

/-- Calls use up the file piece by piece, and the frames among the pieces are counted. -/
theorem exists_passage (count position : Nat) (rest : Bytes) :
    ∃ (steps : List Step) (left : Bytes), Passage rest steps left ∧ steps.length = count ∧
      readings count position rest =
        (steps.map Step.reply, left, position + (steps.flatMap Step.counted).length) := by
  induction count generalizing position rest with
  | zero => exact ⟨[], rest, .stay, rfl, rfl⟩
  | succ count ih =>
    obtain ⟨step, middle, hat, hreading⟩ := exists_step position rest
    obtain ⟨steps, left, hpassage, hlength, hreadings⟩ :=
      ih (position + step.counted.length) middle
    refine ⟨step :: steps, left, .go hat hpassage, congrArg (· + 1) hlength, ?_⟩
    unfold readings
    rw [hreading]
    simp only [hreadings, List.map_cons, List.flatMap_cons, List.length_append, Nat.add_assoc]

variable {steps before later : List Step}

theorem Passage.eq_append (h : Passage bytes steps rest) :
    bytes = steps.flatMap Step.taken ++ rest := by
  induction h with
  | stay => rfl
  | go hat _ ih =>
    rw [List.flatMap_cons, List.append_assoc, ← ih]
    cases hat <;> rfl

/-- The calls before some of the calls, and those from there on. -/
theorem Passage.split (h : Passage bytes (before ++ later) rest) :
    ∃ middle, Passage bytes before middle ∧ Passage middle later rest := by
  induction before generalizing bytes with
  | nil => exact ⟨bytes, .stay, h⟩
  | cons step before ih =>
    cases h with
    | go hat h =>
      obtain ⟨middle, hbefore, hlater⟩ := ih h
      exact ⟨middle, .go hat hbefore, hlater⟩

/-- All that was used up was counted exactly if nothing failed. -/
theorem Passage.counted_iff (h : Passage bytes steps rest) :
    (steps.flatMap Step.counted).length ≤ (steps.flatMap Step.taken).length ∧
      ((steps.flatMap Step.counted).length = (steps.flatMap Step.taken).length ↔
        ∀ step ∈ steps, step.fault? = none) := by
  induction h with
  | stay => simp
  | go hat _ ih =>
    simp only [List.flatMap_cons, List.length_append, List.forall_mem_cons]
    cases hat with
    | read | ended =>
      simpa only [Step.counted, Step.taken, Step.fault?, true_and, Nat.add_le_add_iff_left,
        Nat.add_left_cancel_iff] using ih
    | failed hskipped _ =>
      have hle := ih.1
      have hpos := List.length_pos_iff.2 hskipped
      simp only [Step.counted, Step.taken, Step.fault?, List.length_nil, reduceCtorEq, false_and,
        iff_false]
      omega

theorem counted_eq_nil (h : ∀ step ∈ steps, step.record? = none) :
    steps.flatMap Step.counted = [] := by
  rw [List.flatMap_eq_nil_iff]
  intro step hmem
  cases step with
  | read frame record => cases h _ hmem
  | failed | ended => rfl

/-- Where a position lies beside the last record that calls gave out. -/
structure Placed (bytes : Bytes) (steps : List Step) (position : Nat) : Prop where
  /-- Before the first record it is the start of the file. -/
  start : (∀ step ∈ steps, step.record? = none) → position = 0
  /-- The frame of the last record stands in the file behind all that had been used up. The position
  is the place just behind it exactly if nothing had failed, and otherwise a place before. -/
  last : ∀ before frame record later, steps = before ++ .read frame record :: later →
    (∀ step ∈ later, step.record? = none) →
    ValidFrame frame record ∧
    (∃ behind, bytes = before.flatMap Step.taken ++ (frame ++ behind)) ∧
    position ≤ (before.flatMap Step.taken).length + frame.length ∧
    (position = (before.flatMap Step.taken).length + frame.length ↔
      ∀ step ∈ before, step.fault? = none)

theorem Passage.placed (h : Passage bytes steps rest) :
    Placed bytes steps (steps.flatMap Step.counted).length where
  start hnone := by rw [counted_eq_nil hnone]; rfl
  last := by
    rintro before frame record later rfl hlater
    obtain ⟨middle, hbefore, hrest⟩ := h.split
    cases hrest with
    | go hat _ =>
      cases hat with
      | read hvalid =>
        obtain ⟨hle, hiff⟩ := hbefore.counted_iff
        simp only [List.flatMap_append, List.flatMap_cons, counted_eq_nil hlater, Step.counted,
          List.append_nil, List.length_append]
        refine ⟨hvalid, ⟨_, hbefore.eq_append⟩, Nat.add_le_add_right hle _, ?_⟩
        rw [← hiff]
        omega

/-- However often a stream over a file was asked, its position is the place just behind the last
record that it gave out exactly if nothing failed before that record, and the start of the file if
there was none. -/
theorem position_behind_last_iff (sound : host.Sound)
    (content : host.disk.content? path = some bytes) (count : Nat) :
    ∃ (stream after : Stream) (steps : List Step) (rest : Bytes),
      (Stream.start path).perform host = (.ok stream, host) ∧
      (asked count stream).run host = ((steps.map Step.reply, after), host) ∧
      steps.length = count ∧ Passage bytes steps rest ∧ Placed bytes steps after.position := by
  obtain ⟨stream, after, hstart, hasked, hposition⟩ := exists_asked sound content count
  obtain ⟨steps, rest, hpassage, hlength, hreadings⟩ := exists_passage count 0 bytes
  rw [hreadings] at hasked hposition
  refine ⟨stream, after, steps, rest, hstart, hasked, hlength, hpassage, ?_⟩
  have hcounted : after.position = (steps.flatMap Step.counted).length :=
    hposition.trans (Nat.zero_add _)
  exact hcounted ▸ hpassage.placed

def firstRecord : Record :=
  ⟨1, .one (.put [97] [49]), 0⟩

def secondRecord : Record :=
  ⟨2, .one (.put [98] [50]), 0⟩

/-- The first frame as it was written, and the second one with another last byte. -/
def damagedBehind : Bytes :=
  firstRecord.frame ++ (secondRecord.frame.dropLast ++ [1])

/-- The first frame with another last byte, and the second one as it was written. -/
def damagedBefore : Bytes :=
  (firstRecord.frame.dropLast ++ [1]) ++ secondRecord.frame

/-- A failure behind a record leaves the position where it was. -/
theorem position_behind_last_iff_damaged :
    ∃ (host : Host) (path : Path) (stream after : Stream) (steps : List Step) (rest : Bytes),
      host.disk.content? path = some damagedBehind ∧
      (Stream.start path).perform host = (.ok stream, host) ∧
      (asked 2 stream).run host = ((steps.map Step.reply, after), host) ∧
      steps.map Step.reply =
        [.ok (some firstRecord), .error (.logCorruption (.checksum 2))] ∧
      Passage damagedBehind steps rest ∧ Placed damagedBehind steps after.position ∧
      after.position = firstRecord.frame.length := by
  obtain ⟨host, hsound, hcontent⟩ := @Host.exists_storing damagedBehind (by decide +kernel)
  have hreadings : readings 2 0 damagedBehind =
      ([.ok (some firstRecord), .error (.logCorruption (.checksum 2))], [], 54) := by
    decide +kernel
  obtain ⟨stream, after, steps, rest, hstart, hasked, _, hpassage, hplaced⟩ :=
    position_behind_last_iff hsound hcontent 2
  obtain ⟨stream', after', hstart', hasked', hposition⟩ := exists_asked hsound hcontent 2
  rw [hreadings] at hasked' hposition
  cases hstart.symm.trans hstart'
  obtain ⟨hreplies, rfl⟩ := Prod.mk.inj (Prod.mk.inj (hasked.symm.trans hasked')).1
  refine ⟨host, .ofText "file", stream, after, steps, rest, hcontent, hstart, hasked, hreplies,
    hpassage, hplaced, ?_⟩
  rw [hposition]
  decide +kernel

/-- Asked again after a failure a stream gives out a record, and the bytes that end at its position
are no frame of it. -/
theorem not_position_behind_last :
    ∃ (host : Host) (path : Path) (stream after : Stream),
      host.Sound ∧ host.disk.content? path = some damagedBefore ∧
      (Stream.start path).perform host = (.ok stream, host) ∧
      (asked 2 stream).run host =
        (([.error (.logCorruption (.checksum 1)), .ok (some secondRecord)], after), host) ∧
      ValidFrame secondRecord.frame secondRecord ∧
      after.position ≠ damagedBefore.length ∧
      ¬ ∃ front frame, damagedBefore.take after.position = front ++ frame ∧
        ValidFrame frame secondRecord := by
  obtain ⟨host, hsound, hcontent⟩ := @Host.exists_storing damagedBefore (by decide +kernel)
  have hreadings : readings 2 0 damagedBefore =
      ([.error (.logCorruption (.checksum 1)), .ok (some secondRecord)], [], 54) := by
    decide +kernel
  obtain ⟨stream, after, hstart, hasked, hposition⟩ := exists_asked hsound hcontent 2
  rw [hreadings] at hasked hposition
  refine ⟨host, .ofText "file", stream, after, hsound, hcontent, hstart, hasked,
    validFrame_frame (by decide +kernel), by rw [hposition]; decide +kernel, ?_⟩
  rintro ⟨front, frame, htake, hvalid⟩
  rw [hposition] at htake
  -- None of the ends of the damaged frame reads as a frame of the second record.
  have hends : ∀ count < 55, Frame.split? ((damagedBefore.take 54).drop count) ≠
      some (secondRecord, []) := by
    decide +kernel
  have hlength : front.length < 55 := by
    have hle : (front ++ frame).length ≤ 54 := htake ▸ List.length_take_le ..
    rw [List.length_append] at hle
    omega
  have hdrop : (damagedBefore.take 54).drop front.length = frame := by
    rw [htake, List.drop_left]
  exact hends front.length hlength (hdrop ▸ hvalid.split?)

end OrderedStore.Log.Stream
