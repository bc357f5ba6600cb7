import OrderedStore.Proofs.Log.Chronicle
import OrderedStore.Proofs.Portable.Crash
import OrderedStore.Proofs.Portable.Inversion
import OrderedStore.Proofs.TableStack.Hindrance

/-!
# Stores whose write-outs are hindered

The system may refuse to make, write, rename or open a table while all else goes well. Then the
memtable stays as it is, and so does the log: at any time the log holds what the memtable was made
from.

Main definitions:

- `Portable.Hindered`: runs of an open store whose write-outs may be hindered.
- `Portable.Agrees`: a log and a memtable that say the same.
- `Portable.WroteOut`: what becomes of a write-out.

Main statements: `Portable.Working.writeOut_endured`, `Portable.Working.change_endured`,
`Portable.Working.close_endured`.
-/

namespace OrderedStore

namespace Portable

open Log (Operation told Fit operations Loggable Numbered)
open TableStack (Volume Stacked StackedOr Attempted)

variable {host after : Host} {path : Path} {root : Location} {used : Nat} {ops : List Operation}
  {operation : Operation} {store store' : Portable} {result : Except Error Unit} {bytes : Bytes}

/-! ## Hindered runs -/

/-- The calls that the system may refuse: those by which a table is made, written, forced to disk,
renamed, opened and read. Handles on the log are told by `ofLog`. -/
def MayRefuse (ofLog : Handle → Prop) : Call → Prop
  | .openFile _ _ | .rename _ _ | .write _ _ _ => True
  | .read handle _ _ | .sync handle => ¬ ofLog handle
  | _ => False

/-- A run of an open store whose write-outs may be hindered. -/
def Hindered {α : Type} (store : Portable) (script : Script α) (host : Host) (value : α)
    (after : Host) : Prop :=
  script.Endures (fun _ => MayRefuse (· = store.log.handle)) host value after

section Log

variable {log log' : Log.Appender} {handle : Handle} {v : View} {target : Location}
  {logged : Except Error UInt64}

/-- The calls of an appender. -/
def Appends (handle : Handle) : Call → Prop
  | .clock => True
  | .append other _ | .resize other _ | .sync other => other = handle
  | _ => False

theorem appends_append (handle : Handle) (data : Bytes) : Appends handle (.append handle data) :=
  rfl

theorem appends_resize (handle : Handle) (size : Nat) : Appends handle (.resize handle size) :=
  rfl

theorem appends_sync (handle : Handle) : Appends handle (.sync handle) :=
  rfl

theorem not_mayRefuse_of_appends {call : Call} (h : Appends handle call) :
    ¬ MayRefuse (· = handle) call := by
  intro hmay
  cases call with
  | sync other => exact hmay h
  | append other data => exact hmay
  | resize other size => exact hmay
  | clock => exact hmay
  | _ => exact h

/-- An appender stays on its file, and makes no other calls. -/
theorem gives_log_sync (same : log.handle = handle) :
    log.sync.Gives (Appends handle) fun found => found.2.handle = handle := by
  have hsync : (Action.sync log.handle).Only (Appends handle) :=
    Action.only_attempt (Script.only_call same)
  refine Script.Gives.bind hsync ?_
  rintro (e | done) _
  · exact same
  · exact same

theorem gives_log_truncate (log : Log.Appender) :
    log.truncate.Gives (Appends log.handle) fun found => found.2.handle = log.handle := by
  have hemptied : (do
      Action.resize log.handle 0
      Action.sync log.handle : Action Unit).Only (Appends log.handle) :=
    (Action.only_attempt (Script.only_call (appends_resize _ _))).bind fun _ =>
      Action.only_attempt (Script.only_call (appends_sync _))
  refine Script.Gives.bind hemptied ?_
  rintro (e | done) _
  · rfl
  · rfl

theorem gives_log_append (log : Log.Appender) (operation : Operation) :
    (log.append operation).Gives (Appends log.handle) fun found =>
      found.2.handle = log.handle := by
  have hframe : ∀ frame, (log.appendFrame frame).Gives (Appends log.handle) fun found =>
      found.2.handle = log.handle := by
    intro frame
    refine Script.Gives.bind (Script.only_call (appends_append _ _)) ?_
    rintro (fault | done) _
    · refine Script.Gives.bind (Action.only_attempt (Script.only_call (appends_resize _ _))) ?_
      rintro (e | done) _
      · rfl
      · rfl
    · simp only
      split
      · exact gives_log_sync rfl
      · rfl
  refine Script.Gives.bind (Script.only_call (show Appends log.handle .clock from trivial))
    fun now _ => ?_
  split
  · rfl
  · exact (hframe _).bind fun _ h => h

theorem only_log_sync (same : log.handle = handle) : log.sync.Only (Appends handle) :=
  (gives_log_sync same).mono (fun _ h => h) fun _ _ => trivial

theorem only_log_truncate (log : Log.Appender) : log.truncate.Only (Appends log.handle) :=
  (gives_log_truncate log).mono (fun _ h => h) fun _ _ => trivial

theorem only_log_append (log : Log.Appender) (operation : Operation) :
    (log.append operation).Only (Appends log.handle) :=
  (gives_log_append log operation).mono (fun _ h => h) fun _ _ => trivial

/-- What is not hindered is taken into account by every conduct. -/
theorem yields_of_appends {conduct : Conduct} {α : Type} {script : Script α} {value : α}
    (unroomy : ¬ conduct.roomy)
    (run : script.Endures (fun _ => MayRefuse (· = handle)) host value after)
    (only : script.Only (Appends handle)) : script.Yields conduct host value after :=
  run.yields unroomy (only.mono fun _ h _ hmay => absurd hmay (not_mayRefuse_of_appends h))

theorem log_sync_endured (holds : log.Holds v target bytes host)
    (run : log.sync.Endures (fun _ => MayRefuse (· = log.handle)) host (result, log') after) :
    result = .ok () ∧ log.Follows log' log.nextLsn ∧ log'.Holds v target bytes after := by
  have hensures := @Log.Appender.ensures_sync .own _ _ _ _ _ holds
  obtain ⟨_, heq, hafter⟩ := hensures.yields (yields_of_appends id run (only_log_sync rfl))
  cases heq
  exact ⟨rfl, hafter⟩

theorem log_truncate_endured (holds : log.Holds v target bytes host)
    (run : log.truncate.Endures (fun _ => MayRefuse (· = log.handle)) host (result, log') after) :
    result = .ok () ∧ log.Follows log' log.nextLsn ∧ log'.Holds v target [] after := by
  have hensures := @Log.Appender.ensures_truncate .own _ _ _ _ _ holds
  rcases hensures.yields (yields_of_appends id run (only_log_truncate log)) with
    ⟨_, heq, hafter⟩ | ⟨unsteady, _⟩
  · cases heq
    exact ⟨rfl, hafter⟩
  · exact absurd Conduct.steady_own unsteady

theorem log_append_endured
    (run : (log.append operation).Endures (fun _ => MayRefuse (· = log.handle)) host
      (logged, log') after) :
    (log.append operation).run host = ((logged, log'), after) :=
  Script.yields_own_iff.1 (yields_of_appends id run (only_log_append log operation))

theorem log_append_cases (holds : log.Holds v target bytes host)
    (run : (log.append operation).run host = ((logged, log'), after)) :
    (∃ now, logged = .ok log.nextLsn ∧ Log.Payload.length operation ≤ Log.Frame.payloadLimit ∧
        log.Follows log' (log.nextLsn + 1) ∧
        log'.Holds v target (bytes ++ Log.Record.frame ⟨log.nextLsn, operation, now⟩) after) ∨
      ∃ e, logged = .error e ∧ log' = log ∧ log.Holds v target bytes after := by
  have hensures := @Log.Appender.ensures_append .own _ _ _ _ _ operation holds
  rcases hensures.yields (Script.yields_own_iff.2 run) with
    ⟨_, now, heq, hafter⟩ | ⟨_, e, heq, hafter⟩
  · cases heq
    exact Or.inl ⟨now, rfl, hafter⟩
  · cases heq
    exact Or.inr ⟨e, rfl, rfl, hafter⟩

end Log

theorem only_tell {allowed : Call → Prop} (reporting : Bool) (message : String)
    (h : allowed (.report message)) : (tell reporting message).Only allowed := by
  unfold tell
  split
  · exact Script.only_call h
  · trivial

/-- A message is shown, and changes nothing that matters here. -/
theorem tell_endured {may : Host → Call → Prop} {reporting : Bool} {message : String} {done : Unit}
    (sound : host.Sound) (run : (tell reporting message).Endures may host done after) :
    (tell reporting message).run host = (done, after) ∧ after.Sound ∧ after.view = host.view := by
  have hyields : (tell reporting message).Yields .own host done after :=
    run.yields_of_foreseen id (only_tell reporting message fun _ _ _ h => by cases h)
  have htell : (tell reporting message).Ensures .own (fun _ => True)
      (fun _ later => later.Sound ∧ later.view = host.view) host :=
    ensures_tell sound trivial fun _ hsound hview => ⟨trivial, hsound, hview⟩
  exact ⟨Script.yields_own_iff.1 hyields, htell.yields hyields⟩

/-! ## The log and the memtable -/

/-- The bytes of a log hold the frames of consecutive records, and the memtable of the store is what
these records make of an empty one. -/
structure Agrees (store : Portable) (bytes : Bytes) : Prop where
  clean : Log.leftover bytes = []
  frames : bytes = (Log.records bytes).flatMap Log.Record.frame
  numbered : Numbered (Log.records bytes) store.log.nextLsn
  memtable : store.memtable = Memtable.empty.applyAll ((operations bytes).flatMap (·.mutations))

theorem agrees_nil (memtable : store.memtable = .empty) : Agrees store [] where
  clean := Log.leftover_nil
  frames := by rw [Log.records_nil, List.flatMap_nil]
  numbered := by
    rw [Log.records_nil]
    exact Log.numbered_nil _
  memtable := by rw [memtable, Log.operations_nil, List.flatMap_nil, Memtable.applyAll_nil]

/-- The log takes in one more operation, and so does the memtable. -/
theorem Agrees.append (h : Agrees store bytes) {log : Log.Appender} {now : UInt64}
    (fits : Log.Payload.length operation ≤ Log.Frame.payloadLimit)
    (hnext : log.nextLsn = store.log.nextLsn + 1) (clean : Log.leftover (bytes ++
      Log.Record.frame ⟨store.log.nextLsn, operation, now⟩) = []) :
    Agrees { store with log, memtable := store.memtable.applyAll operation.mutations }
      (bytes ++ Log.Record.frame ⟨store.log.nextLsn, operation, now⟩) := by
  have hrecords := Log.records_frame ⟨store.log.nextLsn, operation, now⟩ h.clean fits
  refine ⟨clean, ?_, ?_, ?_⟩
  · rw [hrecords, List.flatMap_append, List.flatMap_singleton, ← h.frames]
  · rw [hrecords, hnext]
    exact h.numbered.append rfl
  · simp only
    rw [Log.operations_of_records hrecords, List.flatMap_append, List.flatMap_singleton,
      Memtable.applyAll_append, ← h.memtable]

/-- What the memtable and the next number are is all that agreement asks of a store. -/
theorem Agrees.of_eq (h : Agrees store bytes) (memtable : store'.memtable = store.memtable)
    (nextLsn : store'.log.nextLsn = store.log.nextLsn) : Agrees store' bytes :=
  ⟨h.clean, h.frames, nextLsn ▸ h.numbered, memtable.trans h.memtable⟩

/-- An open store on a directory that holds a history, whose log agrees with its memtable. -/
structure Working (path : Path) (root : Location) (used : Nat) (ops : List Operation)
    (store : Portable) (host : Host) : Prop
    extends Live .frail path root used ops store host where
  agrees : Agrees store (host.view.bytesAt (logPlace root))

theorem Begun.working (begun : Begun .frail path root used ops store host) :
    Working path root used ops store host where
  toLive := begun.toLive
  agrees := by
    rw [begun.log]
    exact agrees_nil begun.memtable

namespace Working

theorem file (working : Working path root used ops store host) :
    host.view.file? (logPlace root) =
      some (store.log.handle.id, host.view.bytesAt (logPlace root)) := by
  obtain ⟨_, _, _, _, _, _, bytes, serving, _⟩ := working.parts
  rw [View.bytesAt_of_file? serving.log.file, serving.log.file]

/-- The log is empty exactly if the memtable is. -/
theorem log_eq_nil_iff (working : Working path root used ops store host) :
    host.view.bytesAt (logPlace root) = [] ↔ store.memtable.isEmpty = true := by
  constructor
  · intro hnil
    have hmemtable := working.agrees.memtable
    rw [hnil, Log.operations_nil] at hmemtable
    rw [hmemtable]
    rfl
  · intro hempty
    obtain ⟨logged, _, _, _, _, _, bytes, serving, _⟩ := working.parts
    have hbytes := View.bytesAt_of_file? serving.log.file
    have hmemtable := working.agrees.memtable
    rw [hbytes] at hmemtable ⊢
    -- Operations that leave no entry are none.
    refine Log.eq_nil_of_operations serving.log.clean ?_
    rw [serving.operations_eq] at hmemtable ⊢
    refine (working.fit.drop logged).eq_nil fun key => ?_
    rw [told, ← hmemtable]
    exact Memtable.find?_of_isEmpty hempty key

theorem mono (working : Working path root used ops store host) {more : Nat} (le : used ≤ more) :
    Working path root more ops store host :=
  ⟨working.toLive.mono le, working.agrees⟩

theorem sameView (working : Working path root used ops store host) (sound : after.Sound)
    (hview : after.view = host.view) : Working path root used ops store after :=
  ⟨working.toLive.sameView sound hview, hview ▸ working.agrees⟩

end Working

/-! ## Writing out -/

/-- What becomes of a write-out: there was nothing to write, the memtable is the newest table and
the log starts anew, or all but the number of the next table is as before. -/
inductive WroteOut (store : Portable) (root : Location) (host : Host) :
    Except Error Unit → Portable → Host → Prop where
  | nothing : store.memtable.isEmpty = true → WroteOut store root host (.ok ()) store host
  | written {table : Table} {log : Log.Appender} {after : Host} :
      store.nextVolume.OpenedBy after.view (tablesPlace root) table →
      WroteOut store root host (.ok ())
        { store with
          log
          memtable := .empty
          tables := { store.tables with
            tables := table :: store.tables.tables
            nextId := store.tables.nextId + 1 } } after
  | failed {e : Error} {shelf : List (List TableEntry)} {after : Host} :
      TableStack.Opened store.tables.tables host.view shelf →
      TableStack.Opened store.tables.tables after.view shelf →
      WroteOut store root host (.error e)
        { store with tables := { store.tables with nextId := store.tables.nextId + 1 } } after

theorem WroteOut.lockFile (wrote : WroteOut store root host result store' after) :
    store'.lockFile = store.lockFile := by
  cases wrote with
  | nothing _ => rfl
  | written _ => rfl
  | failed _ _ => rfl

/-- The flush of a memtable may be hindered anywhere. -/
theorem Serving.flush_endured {may : Host → Call → Prop} {logged recent served tabled : Nat}
    {volumes servedVolumes : List Volume} {flushed : Except Error Table.Summary}
    {tables : TableStack}
    (serving : Serving store root used ops logged recent served tabled volumes servedVolumes bytes
      host)
    (fit : Fit ops) (nonempty : store.memtable.isEmpty = false)
    (run : (store.tables.flush store.memtable).Endures may host (flushed, tables) after) :
    Attempted store.tables host.view (tablesPlace root) volumes servedVolumes store.nextVolume
      flushed tables after :=
  TableStack.flush_endured serving.tables serving.tablesPath (serving.fresh fit) rfl rfl nonempty
    run

/-- A write-out may be hindered anywhere. -/
theorem Working.writeOut_endured (working : Working path root used ops store host)
    (small : used + 2 < UInt64.size)
    (run : store.Hindered store.writeOut host (result, store') after) :
    WroteOut store root host result store' after ∧
      Working path root (used + 1) ops store' after ∧
      store'.log.handle = store.log.handle := by
  obtain ⟨logged, recent, served, tabled, volumes, servedVolumes, bytes, serving, steady⟩ :=
    working.parts
  unfold Hindered at run
  cases writeOut_run run with
  | nothing hempty => exact ⟨.nothing hempty, working.mono (Nat.le_succ _), rfl⟩
  | unflushed hnonempty hflush =>
    -- A table that nobody lists may be left. It holds what the log holds, so it says nothing new.
    obtain _ | hstacked := serving.flush_endured working.fit hnonempty hflush
    have hsame : host.view.SameOutside after.view (tablesPlace root) :=
      hstacked.elim (fun h => h.same) fun h => h.same
    have hserves : TableStack.Serves store.tables.tables after.view (tablesPlace root)
        servedVolumes := hstacked.elim (fun h => h.serves) fun h => h.serves
    have hlive : Live .frail path root (used + 1) ops
        { store with tables := { store.tables with nextId := store.tables.nextId + 1 } } after :=
      serving.unflushed working.reaches working.tidy working.fit steady small rfl rfl
        (hstacked.imp_right fun h => ⟨Conduct.not_steady_frail, h⟩)
    refine ⟨.failed serving.tables.serves.opened hserves.opened, ⟨hlive, ?_⟩, rfl⟩
    rw [bytesAt_logPlace hsame]
    exact working.agrees.of_eq rfl rfl
  | @flushed _ _ _ log _ _ between emptied _ hnonempty hflush htruncate htell =>
    obtain @⟨_, table, _, hstacked⟩ := serving.flush_endured working.fit hnonempty hflush
    let tables : TableStack := { store.tables with
      tables := table :: store.tables.tables
      nextId := store.tables.nextId + 1 }
    have hflushed : Serving { store with tables, memtable := .empty } root (used + 1) ops logged
        ops.length ops.length ops.length (store.nextVolume :: volumes)
        (store.nextVolume :: servedVolumes) bytes between :=
      serving.flushed small hstacked rfl rfl
    obtain ⟨rfl, hfollows, hholds⟩ := log_truncate_endured hflushed.log htruncate
    -- The tables hold the whole history, and the log starts anew.
    have hworking : Working path root (used + 1) ops
        { store with tables, log, memtable := .empty } emptied := by
      refine ⟨hflushed.live_emptied (hstacked.same.reaches working.reaches)
        (working.tidy.sameOutside hstacked.same) working.fit hholds, ?_⟩
      rw [View.bytesAt_of_file? hholds.file]
      exact agrees_nil rfl
    have hopened := (List.forall₂_cons.1 (hflushed.emptied hholds).tables.serves).1
    obtain ⟨_, hsound, hview⟩ := tell_endured hworking.sound htell
    have hlast := hworking.sameView hsound hview
    rw [← hview] at hopened
    exact ⟨.written hopened, hlast, hfollows.handle⟩

/-- A write-out that failed, and the report of it. -/
def PutOff (store full : Portable) (host : Host) (store' : Portable) (after : Host) : Prop :=
  ∃ e between, store.Hindered full.writeOut host (.error e, store') between ∧
    (tell store'.reporting ("memtable write-out deferred: " ++ e.message)).run between = ((), after)

theorem Working.writeOutIfFull_endured (working : Working path root used ops store host)
    (small : used + 2 < UInt64.size)
    (run : store.Hindered store.writeOutIfFull host store' after) :
    Working path root (used + 1) ops store' after ∧
      (store'.memtable.isEmpty = true ∨ store'.memtable.size < store'.writeBufferSize ∨
        PutOff store store host store' after) := by
  unfold Hindered at run
  cases writeOutIfFull_run run with
  | below hbelow =>
    refine ⟨working.mono (Nat.le_succ _), Or.inr (Or.inl ?_)⟩
    simpa [Memtable.isFull] using hbelow
  | written hwrite =>
    obtain ⟨hwrote, hworking, _⟩ := working.writeOut_endured small hwrite
    cases hwrote with
    | nothing hempty => exact ⟨hworking, Or.inl hempty⟩
    | written _ => exact ⟨hworking, Or.inl rfl⟩
  | putOff hwrite htell =>
    -- The failure is only reported.
    obtain ⟨_, hworking, _⟩ := working.writeOut_endured small hwrite
    obtain ⟨hreported, hsound, hview⟩ := tell_endured hworking.sound htell
    exact ⟨hworking.sameView hsound hview, Or.inr (Or.inr ⟨_, _, hwrite, hreported⟩)⟩

/-! ## Changes -/

/-- The log takes in what a change logs. -/
def Logs (store : Portable) (change : Change) (host : Host) : Prop :=
  ∀ operation ∈ change.operations, ∃ lsn, ((store.log.append operation).run host).1.1 = .ok lsn

/-- A store when the log has taken in what a change logs. -/
inductive Logged (store : Portable) (change : Change) (host : Host) : Portable → Host → Prop where
  | operation {operation : Operation} {lsn : UInt64} {log : Log.Appender} {between : Host} :
      change.operations = [operation] →
      (store.log.append operation).run host = ((.ok lsn, log), between) →
      Logged store change host
        { store with log, memtable := store.memtable.applyAll operation.mutations } between

/-- The write-out failed that a change brought about. -/
def Deferred (store : Portable) (change : Change) (host : Host) (store' : Portable)
    (after : Host) : Prop :=
  ∃ logged between, Logged store change host logged between ∧
    PutOff store logged between store' after

/-- What becomes of a change under hindrance: it is made exactly if it was logged, and the memtable
does not grow beyond its limit as long as it can be written out. -/
inductive Changed (path : Path) (root : Location) (used : Nat) (ops : List Operation)
    (store : Portable) (change : Change) (host : Host) :
    Except Error Unit → Portable → Host → Prop where
  | made {store' : Portable} {after : Host} :
      Logs store change host → Working path root used (ops ++ change.operations) store' after →
      (change.operations ≠ [] → store'.memtable.isEmpty = true ∨
        store'.memtable.size < store'.writeBufferSize ∨
        Deferred store change host store' after) →
      Changed path root used ops store change host (.ok ()) store' after
  | refused {e : Error} {store' : Portable} {after : Host} :
      ¬ Logs store change host → Working path root used ops store' after →
      Changed path root used ops store change host (.error e) store' after

/-- An operation is in the log and in the memtable. -/
theorem Working.logged (working : Working path root used ops store host) {change : Change}
    {between : Host} (logged : Logged store change host store' between) :
    Working path root used (ops ++ change.operations) store' between ∧
      store'.log.handle = store.log.handle ∧ store'.tables = store.tables := by
  obtain ⟨_, recent, served, tabled, volumes, servedVolumes, bytes, serving, steady⟩ :=
    working.parts
  have hagrees := working.agrees
  rw [View.bytesAt_of_file? serving.log.file] at hagrees
  cases logged with
  | @operation operation lsn log _ single run =>
    have hnonempty : operation.mutations ≠ [] :=
      change.nonempty operation (by rw [single]; exact List.mem_singleton.2 rfl)
    obtain ⟨now, _, hfits, hfollows, hholds⟩ | ⟨e, he, _⟩ := log_append_cases serving.log run
    · have hops := Log.operations_of_records
        (Log.records_frame ⟨store.log.nextLsn, operation, now⟩ serving.log.clean hfits)
      refine ⟨⟨?_, ?_⟩, hfollows.handle, rfl⟩
      · rw [single]
        exact serving.live_commit working.reaches working.tidy working.fit steady
          ⟨hfits, hnonempty⟩ hholds hops
      · rw [View.bytesAt_of_file? hholds.file]
        exact hagrees.append hfits hfollows.nextLsn hholds.clean
    · cases he

theorem Working.commit_endured (working : Working path root used ops store host)
    (small : used + 2 < UInt64.size) {change : Change} (single : change.operations = [operation])
    (run : store.Hindered (store.commit operation) host (result, store') after) :
    Changed path root (used + 1) ops store change host result store' after := by
  have hlogs : Logs store change host ↔
      ∃ lsn, ((store.log.append operation).run host).1.1 = .ok lsn := by
    simp [Logs, single]
  unfold Hindered at run
  cases commit_run run with
  | @logged lsn _ _ between _ happend hwrite =>
    have hrun := log_append_endured happend
    have hlogged := Logged.operation single hrun
    obtain ⟨hworking, hhandle, _⟩ := working.logged hlogged
    rw [← hhandle] at hwrite
    obtain ⟨hlast, hsize⟩ := hworking.writeOutIfFull_endured small hwrite
    refine .made (hlogs.2 ⟨lsn, by rw [hrun]⟩) hlast fun _ => hsize.imp_right (Or.imp_right ?_)
    rintro ⟨e, written, hfailed, hreported⟩
    rw [Hindered, hhandle] at hfailed
    exact ⟨_, between, hlogged, e, written, hfailed, hreported⟩
  | unlogged happend =>
    have hrun := log_append_endured happend
    obtain ⟨_, recent, served, tabled, volumes, servedVolumes, bytes, serving, steady⟩ :=
      working.parts
    have hagrees := working.agrees
    rw [View.bytesAt_of_file? serving.log.file] at hagrees
    obtain ⟨_, hok, _⟩ | ⟨_, _, rfl, hholds⟩ := log_append_cases serving.log hrun
    · cases hok
    refine .refused (fun h => ?_) ⟨?_, ?_⟩
    · obtain ⟨lsn, hlsn⟩ := hlogs.1 h
      rw [hrun] at hlsn
      cases hlsn
    · exact (serving.live_of_holds working.reaches working.tidy working.fit steady hholds).mono
        (Nat.le_succ _)
    · rw [View.bytesAt_of_file? hholds.file]
      exact hagrees.of_eq rfl rfl

theorem Working.change_endured (working : Working path root used ops store host)
    (small : used + 2 < UInt64.size) {change : Change}
    (run : store.Hindered (store.change change) host (result, store') after) :
    Changed path root (used + 1) ops store change host result store' after := by
  rcases change.commits with ⟨operation, hops, h⟩ | ⟨hnone, h⟩ <;> rw [Hindered, h store] at run
  · exact working.commit_endured small hops run
  · cases run
    refine .made (by simp [Logs, hnone]) ?_ fun hsome => absurd hnone hsome
    rw [hnone, List.append_nil]
    exact working.mono (Nat.le_succ _)

/-! ## Closing -/

/-- A store is given up: the directory holds the history, and its lock is free. -/
theorem Live.abandon_endured {may : Host → Call → Prop} {done : Unit}
    (live : Live .frail path root used ops store' host)
    (lockFile : store'.lockFile = store.lockFile)
    (run : store.abandon.Endures may host done after) :
    Rests .frail path root used ops after ∧ Unlocked after.view root := by
  have hyields : store.abandon.Yields .frail host done after :=
    run.yields_of_foreseen id (Script.only_call fun _ _ _ h => by cases h)
  have habandon : store.abandon.Ensures .frail (Rests .frail path root used ops)
      (fun _ last => Rests .frail path root used ops last ∧ Unlocked last.view root) host :=
    live.ensures_abandon lockFile fun _ hrests hunlocked _ => ⟨hrests, hunlocked⟩
  exact habandon.yields hyields

theorem Working.close_endured (working : Working path root used ops store host)
    (small : used + 2 < UInt64.size) (run : store.Hindered store.close host result after) :
    Rests .frail path root (used + 1) ops after ∧ Unlocked after.view root := by
  unfold Hindered at run
  cases close_run run with
  | unwritten hwrite habandon =>
    -- The store is given up at once, and the log is left to the next opening.
    obtain ⟨hwrote, hworking, _⟩ := working.writeOut_endured small hwrite
    exact hworking.toLive.abandon_endured hwrote.lockFile habandon
  | written hwrite hsync htell habandon =>
    obtain ⟨_, hworking, hhandle⟩ := working.writeOut_endured small hwrite
    obtain ⟨logged, recent, served, tabled, volumes, servedVolumes, bytes, serving, steady⟩ :=
      hworking.parts
    rw [← hhandle] at hsync
    obtain ⟨rfl, _, hholds⟩ := log_sync_endured serving.log hsync
    have hlive := serving.live_of_holds hworking.reaches hworking.tidy hworking.fit steady hholds
    obtain ⟨_, hsound, hview⟩ := tell_endured hholds.sound htell
    exact (hlive.sameView hsound hview).abandon_endured rfl habandon

end Portable

end OrderedStore
