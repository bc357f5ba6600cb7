import OrderedStore.Log.Appender
import OrderedStore.Log.Recovery
import OrderedStore.Proofs.Host.Errors
import OrderedStore.Proofs.Host.Hindrance
import OrderedStore.Proofs.Host.OpenFiles
import OrderedStore.Proofs.Log.Canonical
import OrderedStore.Proofs.Log.History

/-!
# What the log accepts and what it gives back

An operation that is logged fits a frame, and so does every operation that is read from a log,
whatever bytes this log holds and whichever calls are refused while it is read.

Main statements: `Log.gives_append_fits`, `Log.gives_append_of_fits`,
`Log.Recovery.fits_of_recover`.
-/

namespace OrderedStore.Log

variable {may : Host → Call → Prop} {host after : Host}

/-- An operation with a payload for which a frame has room. -/
def Fits (operation : Operation) : Prop :=
  Payload.length operation ≤ Frame.payloadLimit

/-- A deletion takes no more room than the entry that it deletes. -/
theorem Carried.fits_delete {key : Bytes} {value? : Option Bytes} (h : Carried (key, value?)) :
    Fits (.one (.delete key)) := by
  simp only [Carried] at h
  simp only [Fits, Payload.length, Payload.operationLength, Payload.mutationLength]
  omega

/-! ## Writing -/

/-- What is logged fits a frame. -/
theorem gives_append_fits (log : Appender) (operation : Operation) :
    (log.append operation).Gives (fun _ => True) fun found =>
      ∀ lsn, found.1 = .ok lsn → Fits operation := by
  refine Script.Gives.bind (Script.gives_any _) fun now _ => ?_
  by_cases hlarge : Frame.payloadLimit < Payload.length operation
  · simp only [Frame.encode, hlarge, if_true]
    rintro lsn ⟨⟩
  · simp only [Frame.encode, hlarge, if_false]
    exact Script.Gives.bind (Script.gives_any _) fun _ _ _ _ => Nat.not_lt.1 hlarge

/-- Whether an error says that an operation is too long. -/
def Oversized : Error → Prop
  | .logWrite (.oversized _) => True
  | _ => False

theorem not_oversized_of_ofSystem {e : Error} (h : e.OfSystem) : ¬ Oversized e := by
  obtain ⟨fault, rfl⟩ := h
  exact id

theorem gives_appendFrame (log : Appender) (frame : Bytes) :
    (log.appendFrame frame).Gives (fun _ => True) fun found =>
      ∀ e, found.1 = .error e → ¬ Oversized e := by
  refine Script.Gives.bind (Script.gives_any _) fun reply _ => ?_
  cases reply with
  | error fault =>
    have hback : log.rollback.Throws Error.OfSystem := Action.throws_attempt_ofSystem _
    refine Script.Gives.bind hback ?_
    rintro (e | done) hthrown
    · rintro _ ⟨rfl⟩
      exact not_oversized_of_ofSystem (hthrown e rfl)
    · rintro _ ⟨rfl⟩
      exact id
  | ok done =>
    simp only
    split
    · have hsync : (Action.sync log.handle).Throws Error.OfSystem :=
        Action.throws_attempt_ofSystem _
      refine Script.Gives.bind hsync ?_
      rintro (e | done) hthrown
      · rintro _ ⟨rfl⟩
        exact not_oversized_of_ofSystem (hthrown e rfl)
      · rintro _ ⟨⟩
    · rintro _ ⟨⟩

/-- What fits a frame is not refused for its length, whatever else happens. -/
theorem gives_append_of_fits (log : Appender) {operation : Operation} (fits : Fits operation) :
    (log.append operation).Gives (fun _ => True) fun found =>
      ∀ e, found.1 = .error e → ¬ Oversized e := by
  refine Script.Gives.bind (Script.gives_any _) fun now _ => ?_
  simp only [Frame.encode, Nat.not_lt.2 fits, if_false]
  refine Script.Gives.bind (gives_appendFrame log _) ?_
  rintro ⟨e | done, log'⟩ hframe
  · rintro _ ⟨rfl⟩
    exact hframe e rfl
  · rintro _ ⟨⟩

/-! ## Reading -/

/-- No more bytes are read than were asked for. -/
theorem length_le_of_read {handle : Handle} {offset count : Nat} {bytes : Bytes}
    (run : (Action.read handle offset count).run.Endures may host (.ok bytes) after) :
    bytes.length ≤ count := by
  obtain ⟨reply, between, hcall, hrest⟩ := Script.Endures.of_bind run
  cases reply with
  | error fault => cases hrest
  | ok found =>
    cases hrest
    rcases hcall.of_call with hanswer | ⟨_, hfault, _⟩
    · have hread : host.disk.read handle offset count = .ok bytes := congrArg Prod.fst hanswer
      unfold Disk.read at hread
      split at hread
      · cases hread
      · obtain ⟨content, -, hslice⟩ := bind_eq_ok_iff.1 hread
        cases hslice
        rw [Content.slice_eq, List.length_take]
        exact Nat.min_le_left _ _
    · cases hfault

theorem Stream.length_le_of_fetch {stream stream' : Stream} {count : Nat} {bytes : Bytes}
    (run : (stream.fetch count).Endures may host (.ok bytes, stream') after) :
    bytes.length ≤ count := by
  unfold fetch at run
  have hfront : (stream.pending.take count).length ≤ count := List.length_take_le ..
  simp only at run
  split at run
  · cases run
    exact hfront
  obtain ⟨result, between, hread, hrest⟩ := run.of_bind
  cases result with
  | error e => cases hrest
  | ok chunk =>
    have hchunk := length_le_of_read hread
    simp only at hrest
    split at hrest
    · cases hrest
      rw [List.length_append]
      omega
    · cases hrest
      have := List.length_take_le (count - (stream.pending.take count).length) chunk
      rw [List.length_append]
      omega

theorem fits_of_record {header : Header} {payload : Bytes} {record : Record}
    (h : Frame.record header payload = .ok record) (small : payload.length ≤ Frame.payloadLimit) :
    Fits record.operation := by
  unfold Frame.record at h
  split at h
  · cases h
  split at h
  · cases h
  · rename_i decoded hdecode
    split at h
    · cases h
    · cases h
      exact Nat.le_trans (Payload.length_le_of_decode hdecode) small

/-- A length that no frame has is not followed. -/
theorem Stream.fits_of_next {stream stream' : Stream} {record : Record}
    (run : stream.next.Endures may host (.ok (some record), stream') after) :
    Fits record.operation := by
  unfold next at run
  obtain ⟨⟨e | raw, begun⟩, _, _, hrest⟩ := run.of_bind
  · cases hrest
  simp only at hrest
  split at hrest
  · cases hrest
  split at hrest
  · cases hrest
  split at hrest
  · cases hrest
  rename_i hlimit
  obtain ⟨⟨e | payload, fetched⟩, _, hfetch, hlast⟩ := hrest.of_bind
  · cases hlast
  have hpayload := length_le_of_fetch hfetch
  simp only at hlast
  split at hlast
  · cases hlast
  split at hlast
  · cases hlast
  · rename_i found hrecord
    cases hlast
    exact fits_of_record hrecord (Nat.le_trans hpayload (Nat.not_lt.1 hlimit))

theorem Stream.fits_of_drainBehind {stream stream' : Stream} {read records : List Record}
    {count : Nat} {failure : Option Error} (fits : ∀ record ∈ read, Fits record.operation)
    (run : (stream.drainBehind read count).Endures may host (records, failure, stream') after) :
    ∀ record ∈ records, Fits record.operation := by
  have hread : ∀ record ∈ read.reverse, Fits record.operation :=
    fun record hmem => fits record (List.mem_reverse.1 hmem)
  -- What was read so far comes along.
  induction count generalizing stream read host with
  | zero =>
    cases run
    exact hread
  | succ count ih =>
    unfold drainBehind at run
    obtain ⟨⟨e | none | record, next⟩, _, hnext, hrest⟩ := run.of_bind
    · cases hrest
      exact hread
    · cases hrest
      exact hread
    · have hmore : ∀ earlier ∈ record :: read, Fits earlier.operation :=
        List.forall_mem_cons.2 ⟨fits_of_next hnext, fits⟩
      exact ih hmore hrest fun record hmem => hmore record (List.mem_reverse.1 hmem)

/-- What is recovered from a log fits frames, whatever bytes the log holds. -/
theorem Recovery.fits_of_recover {path : Path} {records : List Record} {recovery : Recovery}
    (run : (recover path).run.Endures may host (.ok (records, recovery)) after) :
    ∀ record ∈ records, Fits record.operation := by
  have hscan : ∀ {found : List Record × Recovery × Nat} {last : Host},
      (scan path).run.Endures may host (.ok found) last →
      ∀ record ∈ found.1, Fits record.operation := by
    intro found last run
    obtain ⟨_, he, _⟩ | ⟨stream, opened, _, hrest⟩ := Action.endures_bind run
    · cases he
    obtain ⟨⟨records, failure, stream'⟩, drained, hdrain, hdone⟩ :=
      Action.endures_ofScript_bind hrest
    cases hdone
    obtain ⟨size, sized, _, hbehind⟩ := hdrain.of_bind
    exact Stream.fits_of_drainBehind (fun _ hmem => absurd hmem List.not_mem_nil) hbehind
  unfold recover at run
  obtain ⟨_, he, _⟩ | ⟨⟨found, report, length⟩, scanned, hfirst, hrest⟩ :=
    Action.endures_bind run
  · cases he
  simp only at hrest
  split at hrest
  · cases hrest
    exact hscan hfirst
  -- Cutting the log behind the records does not change them.
  obtain ⟨_, _, _, hrest⟩ := Action.endures_bind_ok hrest
  obtain ⟨_, _, _, hrest⟩ := Action.endures_bind_ok hrest
  obtain ⟨_, _, _, hrest⟩ := Action.endures_bind_ok hrest
  cases hrest
  exact hscan hfirst

end OrderedStore.Log
