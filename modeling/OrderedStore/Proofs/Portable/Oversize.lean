import OrderedStore.Engine.Native
import OrderedStore.Proofs.Host.OpenFiles
import OrderedStore.Proofs.Portable.Causes
import OrderedStore.Proofs.Portable.Hindered
import OrderedStore.Store.Batch

/-!
# Oversized changes

A change is logged in one frame, and a frame has room for a payload of 64 MiB. The length of the
payload decides whether the change is accepted, whatever happened to the store, its directory and
the host before: all that matters is that the log is open still.

Main definitions:

- `Portable.Change.payloadLength`: the length of the payload, told from keys and values.
- `Portable.Reached`: what can become of an open store and of its host.
- `Portable.Untouched`: a change that fails and leaves no trace.

Main statement: `Portable.Reached.accepts_iff_fits`.
-/

namespace OrderedStore.Portable

open Log (Operation)

variable {may : Host → Call → Prop} {host after : Host} {store : Portable} {operation : Operation}

/-! ## Lengths -/

/-- The length of the payload as which a change is logged. In a batch, a write takes 20 bytes beside
its key and its value, and a deletion 12 bytes beside its key. -/
def Change.payloadLength : Change → Nat
  | put key value => 36 + key.length + value.length
  | delete key => 28 + key.length
  | write batch => 28 + Log.Payload.mutationsLength batch.toList

theorem Change.payloadLength_eq {change : Change} (h : operation ∈ change.operations) :
    Log.Payload.length operation = change.payloadLength := by
  cases change with
  | put | delete =>
    rw [List.mem_singleton.1 h]
    simp only [Log.Payload.length, Log.Payload.operationLength, Log.Payload.mutationLength,
      payloadLength]
    omega
  | write batch =>
    simp only [operations] at h
    split at h
    · cases h
    · rw [List.mem_singleton.1 h]
      simp only [Log.Payload.length, Log.Payload.operationLength, payloadLength]
      omega

/-- A change that logs nothing is not too long. -/
theorem Change.payloadLength_le_of_nil {change : Change} (h : change.operations = []) :
    change.payloadLength ≤ Log.Frame.payloadLimit := by
  cases change with
  | put | delete => cases h
  | write batch =>
    simp only [operations] at h
    split at h
    · next hempty =>
      simp only [payloadLength, batch.isEmpty_iff.1 hempty]
      decide
    · cases h

/-! ## The log stays open -/

theorem gives_writeOut (store : Portable) :
    store.writeOut.Gives (fun _ => True) fun found =>
      found.2.log.handle = store.log.handle := by
  unfold writeOut
  split
  · rfl
  refine Script.Gives.bind (Script.gives_any _) ?_
  rintro ⟨e | summary, tables⟩ _
  · rfl
  refine Script.Gives.bind ((gives_log_truncate store.log).mono (fun _ _ => trivial)
    fun _ h => h) ?_
  rintro ⟨e | done, log⟩ hlog
  · exact hlog
  · exact Script.Gives.bind (Script.gives_any _) fun _ _ => hlog

theorem gives_writeOutIfFull (store : Portable) :
    store.writeOutIfFull.Gives (fun _ => True) fun found =>
      found.log.handle = store.log.handle := by
  unfold writeOutIfFull
  split
  · rfl
  refine Script.Gives.bind (gives_writeOut store) ?_
  rintro ⟨e | done, written⟩ hwritten
  · exact Script.Gives.bind (Script.gives_any _) fun _ _ => hwritten
  · exact hwritten

theorem gives_commit (store : Portable) (operation : Operation) :
    (store.commit operation).Gives (fun _ => True) fun found =>
      found.2.log.handle = store.log.handle := by
  unfold commit
  refine Script.Gives.bind ((gives_log_append store.log operation).mono (fun _ _ => trivial)
    fun _ h => h) ?_
  rintro ⟨e | lsn, log⟩ hlog
  · exact hlog
  · exact Script.Gives.bind (gives_writeOutIfFull _) fun _ hwritten => hwritten.trans hlog

theorem gives_change (store : Portable) (change : Change) :
    (store.change change).Gives (fun _ => True) fun found =>
      found.2.log.handle = store.log.handle := by
  rcases change.commits with ⟨operation, _, h⟩ | ⟨_, h⟩ <;> rw [h store]
  · exact gives_commit store operation
  · rfl

/-- An appender that was started has its file open. -/
theorem opensFile_of_startLog {path : Path} {policy : SyncPolicy} {log : Log.Appender}
    (bounded : host.disk.Bounded)
    (run : (Log.Appender.start path policy).run.Endures may host (.ok log) after) :
    after.disk.OpensFile log.handle := by
  have hend : ∀ {last : UInt64} {counted : Host}, host.disk.Continues counted.disk →
      (Log.Appender.openEnd path policy last).run.Endures may counted (.ok log) after →
      after.disk.OpensFile log.handle := by
    intro last counted hcounted run
    obtain ⟨handle, opened, hopened, run⟩ := Action.endures_bind_ok run
    obtain ⟨size, sized, hsize, run⟩ := Action.endures_bind_ok run
    cases run
    have hopens := Action.opensFile_of_endures (hcounted.bounded bounded) hopened
    exact hsize.continues.opensFile _ hopens
  -- Only the number of the last record hangs on whether there is a file.
  rw [Log.Appender.start_eq] at run
  obtain ⟨kind, probed, hprobe, run⟩ := Action.endures_bind_ok run
  simp only at run
  split at run
  · obtain ⟨last, counted, hlast, run⟩ := Action.endures_bind_ok run
    exact hend (hprobe.continues.trans hlast.continues) run
  · exact hend hprobe.continues run

theorem handle_of_writeOutReplayed {log log' : Log.Appender} {tables tables' : TableStack}
    {memtable : Memtable} {reporting : Bool}
    (run : (writeOutReplayed log tables memtable reporting).run.Endures may host
      (.ok (log', tables')) after) :
    log'.handle = log.handle := by
  generalize hresult : Except.ok (log', tables') = result at run
  cases writeOutReplayed_run run with
  | nothing _ =>
    cases hresult
    rfl
  | unflushed => cases hresult
  | @flushed _ _ emptied _ _ _ _ _ _ _ _ _ htruncate =>
    cases emptied with
    | error e => cases hresult
    | ok done =>
      cases hresult
      exact htruncate.gives (gives_log_truncate log)

/-- A store that was opened has its log open. -/
theorem opensFile_of_start {config : Config} (bounded : host.disk.Bounded)
    (run : (start config).run.Endures may host (.ok store) after) :
    after.disk.OpensFile store.log.handle := by
  cases start_run run with
  | opened hprepare hacquire hload =>
    obtain ⟨tables, tabled, htables, run⟩ := Action.endures_bind_ok hload
    obtain ⟨memtable, replayed, hreplay, run⟩ := Action.endures_bind_ok run
    obtain ⟨log, logged, hlog, run⟩ := Action.endures_bind_ok run
    obtain ⟨⟨log', tables'⟩, written, hwritten, run⟩ := Action.endures_bind_ok run
    obtain ⟨_, told, htold, run⟩ := Action.endures_ofScript_bind run
    cases run
    -- Up to the log it is names that matter. From there on its handle stays open.
    have hprepared := hprepare.continues.trans hacquire.continues
    have hreplayed := hprepared.trans (htables.continues.trans hreplay.continues)
    have hopens := opensFile_of_startLog (hreplayed.bounded bounded) hlog
    rw [handle_of_writeOutReplayed hwritten]
    exact (hwritten.continues.trans htold.continues).opensFile _ hopens

/-! ## Reachable stores -/

/-- What can become of an open store and of its host. The store is opened on some directory,
whatever that holds, and changed. Beside it anything may be done to the host, by its owner or by
others. Calls may be refused at any time, as far as `may` allows. -/
inductive Reached (may : Host → Call → Prop) : Portable → Host → Prop where
  | opened {config : Config} {store : Portable} {host after : Host} :
      host.disk.Bounded → (start config).run.Endures may host (.ok store) after →
      Reached may store after
  | changed {change : Change} {result : Except Error Unit} {store store' : Portable}
      {host after : Host} :
      Reached may store host → (store.change change).Endures may host (result, store') after →
      Reached may store' after
  | beside {α : Type} {script : Script α} {value : α} {store : Portable} {host after : Host} :
      Reached may store host → script.Endures may host value after → Reached may store after

theorem Reached.opensFile (reached : Reached may store host) :
    host.disk.OpensFile store.log.handle := by
  induction reached with
  | opened bounded run => exact opensFile_of_start bounded run
  | changed _ run ih =>
    -- The appender is another one after the change, but has the same handle.
    have hhandle := run.gives (gives_change _ _)
    rw [hhandle]
    exact run.continues.opensFile _ ih
  | beside _ run ih => exact run.continues.opensFile _ ih

/-! ## Changes that fit -/

theorem ensures_log_sync (log : Log.Appender) (host : Host) :
    log.sync.Ensures .ample (fun _ => True) (fun found _ => found.1 = .ok ()) host := by
  refine Action.Ensures.script_bind (Action.ensures_attempt
    (Script.ensures_call_of_sure (fun h => h) trivial ⟨trivial, ?_⟩))
  rfl

/-- A frame is written at the end of an open log. -/
theorem ensures_appendFrame_open {log : Log.Appender} (opens : host.disk.OpensFile log.handle)
    (frame : Bytes) :
    (log.appendFrame frame).Ensures .ample (fun _ => True) (fun found _ => found.1 = .ok ())
      host := by
  refine Script.Ensures.bind_of (Script.ensures_append_open opens) ?_
  rintro reply after rfl
  simp only
  split
  · exact ensures_log_sync _ after
  · rfl

/-- What fits a frame is logged. -/
theorem ensures_log_append_open {log : Log.Appender} (opens : host.disk.OpensFile log.handle)
    (fits : Log.Payload.length operation ≤ Log.Frame.payloadLimit) :
    (log.append operation).Ensures .ample (fun _ => True)
      (fun found _ => ∃ lsn, found.1 = .ok lsn) host := by
  refine Script.Ensures.bind (Script.ensures_clock trivial fun now => ?_)
  simp only [Log.Frame.encode, Nat.not_lt.2 fits, if_false]
  refine Script.Ensures.bind_of (ensures_appendFrame_open opens _) ?_
  rintro ⟨result, log'⟩ after rfl
  exact ⟨_, rfl⟩

/-- Behind the log nothing can make a change fail. -/
theorem ensures_commit_open (opens : host.disk.OpensFile store.log.handle)
    (fits : Log.Payload.length operation ≤ Log.Frame.payloadLimit) :
    (store.commit operation).Ensures .ample (fun _ => True)
      (fun found _ => found.1 = .ok ()) host := by
  refine Script.Ensures.bind_of (ensures_log_append_open opens fits) ?_
  rintro ⟨logged, log⟩ between ⟨lsn, rfl⟩
  -- A write-out that fails is reported and tried again later.
  refine Script.Ensures.bind_of ((Script.gives_any _).ensures between) ?_
  intro written after _
  rfl

theorem ensures_change_open (opens : host.disk.OpensFile store.log.handle) {change : Change}
    (fits : change.payloadLength ≤ Log.Frame.payloadLimit) :
    (store.change change).Ensures .ample (fun _ => True)
      (fun found _ => found.1 = .ok ()) host := by
  rcases change.commits with ⟨operation, hops, h⟩ | ⟨_, h⟩ <;> rw [h store]
  · rw [← Change.payloadLength_eq (hops ▸ List.mem_singleton_self _)] at fits
    exact ensures_commit_open opens fits
  · rfl

/-! ## Changes that do not fit -/

/-- A change that does not fit asks for the time and does nothing else. -/
theorem change_oversized (store : Portable) {change : Change}
    (large : Log.Frame.payloadLimit < change.payloadLength) :
    store.change change = Script.step .clock fun _ =>
      .done (.error (.logWrite (.oversized change.payloadLength)), store) := by
  rcases change.commits with ⟨operation, hops, h⟩ | ⟨hnone, _⟩
  · have hlength := Change.payloadLength_eq (hops ▸ List.mem_singleton_self operation)
    rw [h store, commit, Log.Appender.append]
    simp only [Log.Frame.encode, hlength, large, if_true]
    rfl
  · exact absurd large (Nat.not_lt.2 (Change.payloadLength_le_of_nil hnone))

/-- A change that fails and leaves no trace, whatever calls are refused: the store and the host stay
as they are, also if the process dies, and what is done next runs as if the change had not been
tried. If the change is a batch of a store that owns this one, that store stays as it is, too. -/
structure Untouched (store : Portable) (change : Change) (refusal : LogRefusal) (host : Host) :
    Prop where
  failed : ∀ may result after, (store.change change).Endures may host result after →
    result = (.error (.logWrite refusal), store) ∧ after = host
  died : ∀ conduct after, (store.change change).Stops conduct host after → after = host
  onward : ∀ (α : Type) (rest : Except Error Unit × Portable → Script α),
    (store.change change >>= rest).run host = (rest (.error (.logWrite refusal), store)).run host
  commit : ∀ (owner : Store Script Portable) (kind : EngineKind) (batch : Batch),
    owner.live = some ⟨store, kind⟩ → batch.generation = owner.generation →
    change = .write batch.pending →
    (batch.commit owner).run host = ((.error (.batchWrite (.logWrite refusal)), owner), host)

theorem untouched_of_oversized (store : Portable) {change : Change}
    (large : Log.Frame.payloadLimit < change.payloadLength) (host : Host) :
    store.Untouched change (.oversized change.payloadLength) host where
  failed may result after run := by
    rw [change_oversized store large] at run
    cases run with
    | answered run =>
      cases run
      exact ⟨rfl, rfl⟩
    | refused _ hfault _ => cases hfault
  died conduct after died := by
    rw [change_oversized store large] at died
    cases died with
    | during torn => exact torn.elim id fun h => h.elim id False.elim
    | later _ died => cases died
  onward α rest := by
    rw [change_oversized store large]
    rfl
  commit owner kind batch live generation hchange := by
    subst hchange
    have hcurrent : owner.current (some batch.generation) = .ok ⟨store, kind⟩ := by
      simp only [Store.current, live, generation, if_true]
    have hwrite : Backend.write store batch.pending = Script.step .clock fun _ =>
        .done (.error (.logWrite (.oversized (Change.write batch.pending).payloadLength)), store) :=
      change_oversized store large
    -- The handle that comes back is the one that the owner had.
    have howner : { owner with live := some ⟨store, kind⟩ } = owner := by
      rw [← live]
    simp only [Batch.commit, Store.change, hcurrent]
    rw [hwrite]
    change (((_, { owner with live := some ⟨store, kind⟩ }), host) :
      (Except Error Unit × Store Script Portable) × Host) = _
    rw [howner]
    rfl

/-- A change is accepted exactly if the payload as which it is logged fits 64 MiB, as long as the
files of the host have room for it; otherwise it leaves no trace. -/
theorem Reached.accepts_iff_fits (reached : Reached may store host) (change : Change) :
    (∀ operation ∈ change.operations, ∀ lsn timestamp,
      (Log.Payload.encode ⟨lsn, operation, timestamp⟩).length = change.payloadLength) ∧
    ((store.change change).FindsRoom host →
      (((store.change change).run host).1.1 = .ok () ↔ change.payloadLength ≤ 67108864)) ∧
    (67108864 < change.payloadLength →
      store.Untouched change (.oversized change.payloadLength) host) := by
  have hlimit : Log.Frame.payloadLimit = 67108864 := rfl
  rw [← hlimit]
  refine ⟨?_, ?_, fun large => untouched_of_oversized store large host⟩
  · intro operation hmem lsn timestamp
    rw [Log.Payload.length_encode, Change.payloadLength_eq hmem]
  · intro room
    refine ⟨fun haccepted => ?_, fun fits =>
      (ensures_change_open reached.opensFile fits).run_of_findsRoom room⟩
    by_contra hlarge
    have huntouched := untouched_of_oversized store (Nat.not_le.1 hlarge) host
    have hfailed := (huntouched.failed may _ _ (.of_run rfl)).1
    rw [hfailed] at haccepted
    cases haccepted

/-- A small write is accepted. Then a batch is refused, although its first write fits alone. -/
theorem Reached.accepts_iff_fits_batch :
    ∃ (store : Portable) (host : Host) (owner : Store Script Portable) (batch : Batch)
      (value : Bytes),
      (start { path := .ofText "/" }).run.run .empty = (.ok store, host) ∧
      ((store.change (.put [1] [2])).run host).1.1 = .ok () ∧
      owner.live = some ⟨store, .portable⟩ ∧ value.length = 67108864 ∧
      batch.pending.toList = [.put [1] [2], .put [] value] ∧
      (batch.commit owner).run host =
        ((.error (.batchWrite (.logWrite (.oversized 67108934))), owner), host) := by
  let config : Config := { path := .ofText "/" }
  obtain ⟨store, host, hopened, hroom⟩ : ∃ store host,
      (start config).run.run .empty = (.ok store, host) ∧
      (store.change (.put [1] [2])).FindsRoom host :=
    ⟨_, _, Script.eq_of_succeeded (by decide +kernel), by decide +kernel⟩
  have hreached : Reached (fun _ _ => False) store host :=
    .opened Host.sound_empty.disk.namesBounded (.of_run hopened)
  -- The long value is known by its length alone, so that nothing has to go through its bytes.
  obtain ⟨value, hvalue⟩ : ∃ value : Bytes, value.length = 67108864 :=
    ⟨List.replicate 67108864 0, List.length_replicate⟩
  let owner : Store Script Portable :=
    { config, selector := ⟨.native, .portable⟩, live := some ⟨store, .portable⟩ }
  let batch : Batch := ⟨0, .ofList [.put [1] [2], .put [] value]⟩
  have hqueued : batch.pending.toList = [.put [1] [2], .put [] value] :=
    WriteBatch.toList_ofList _
  have hlength : (Change.write batch.pending).payloadLength = 67108934 := by
    simp [Change.payloadLength, hqueued, Log.Payload.mutationsLength,
      Log.Payload.mutationLength, hvalue]
  obtain ⟨-, haccepted, -⟩ := accepts_iff_fits hreached (.put [1] [2])
  obtain ⟨-, -, hrefused⟩ := accepts_iff_fits hreached (.write batch.pending)
  rw [hlength] at hrefused
  have huntouched := hrefused (by decide)
  exact ⟨store, host, owner, batch, value, hopened, (haccepted hroom).2 (by decide), rfl, hvalue,
    hqueued, huntouched.commit owner .portable batch rfl rfl rfl⟩

end OrderedStore.Portable
