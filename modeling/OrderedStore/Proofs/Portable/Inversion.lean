import OrderedStore.Engine.Portable
import OrderedStore.Proofs.Host.Hindrance

/-!
# How a hindered run goes

The functions of a store make their calls in a fixed order, and stop or go on by what they are told.
A hindered run of one of them is taken apart here into runs of what it calls. What refusals lead to
is told from the parts.

Main definitions:

- `Portable.WriteOutRun`, `Portable.WriteOutIfFullRun`, `Portable.CommitRun`, `Portable.CloseRun`,
  `Portable.WriteOutReplayedRun`, `Portable.StartRun`: the ways in which a run may go.

Main statements: `Portable.writeOut_run`, `Portable.writeOutIfFull_run`, `Portable.commit_run`,
`Portable.close_run`, `Portable.writeOutReplayed_run`, `Portable.start_run`.
-/

namespace OrderedStore.Portable

variable {may : Host → Call → Prop} {host after : Host} {store store' : Portable}
  {operation : Log.Operation} {result : Except Error Unit}

/-- A write-out. Where the log was forced to disk a message follows, or none if messages are not
wanted; where it was not, there is none. -/
inductive WriteOutRun (may : Host → Call → Prop) (store : Portable) (host : Host) :
    Except Error Unit → Portable → Host → Prop where
  | nothing : store.memtable.isEmpty = true → WriteOutRun may store host (.ok ()) store host
  | unflushed {e : Error} {tables : TableStack} {after : Host} :
      store.memtable.isEmpty = false →
      (store.tables.flush store.memtable).Endures may host (.error e, tables) after →
      WriteOutRun may store host (.error e) { store with tables } after
  | flushed {summary : Table.Summary} {tables : TableStack} {result : Except Error Unit}
      {log : Log.Appender} {reporting : Bool} {message : String} {between emptied after : Host} :
      store.memtable.isEmpty = false →
      (store.tables.flush store.memtable).Endures may host (.ok summary, tables) between →
      store.log.truncate.Endures may between (result, log) emptied →
      (tell reporting message).Endures may emptied () after →
      WriteOutRun may store host result { store with tables, memtable := .empty, log } after

theorem writeOut_run (run : store.writeOut.Endures may host (result, store') after) :
    WriteOutRun may store host result store' after := by
  unfold writeOut at run
  cases hempty : store.memtable.isEmpty with
  | true =>
    simp only [hempty, if_true] at run
    cases run
    exact .nothing hempty
  | false =>
    simp only [hempty] at run
    obtain ⟨⟨flushed, tables⟩, between, hflush, hrest⟩ := run.of_bind
    cases flushed with
    | error e =>
      cases hrest
      exact .unflushed hempty hflush
    | ok summary =>
      obtain ⟨⟨result, log⟩, emptied, htruncate, hlast⟩ := hrest.of_bind
      cases result with
      | error e =>
        cases hlast
        have hsilent : (tell false "").Endures may after () after := .done
        exact .flushed hempty hflush htruncate hsilent
      | ok done =>
        obtain ⟨_, told, htell, hdone⟩ := hlast.of_bind
        cases hdone
        exact .flushed hempty hflush htruncate htell

/-- A write-out of a memtable that may be below its limit. -/
inductive WriteOutIfFullRun (may : Host → Call → Prop) (store : Portable) (host : Host) :
    Portable → Host → Prop where
  | below : store.memtable.isFull store.writeBufferSize = false →
      WriteOutIfFullRun may store host store host
  | written {store' : Portable} {after : Host} :
      store.writeOut.Endures may host (.ok (), store') after →
      WriteOutIfFullRun may store host store' after
  | putOff {e : Error} {store' : Portable} {between after : Host} :
      store.writeOut.Endures may host (.error e, store') between →
      (tell store'.reporting ("memtable write-out deferred: " ++ e.message)).Endures may between ()
        after →
      WriteOutIfFullRun may store host store' after

theorem writeOutIfFull_run (run : store.writeOutIfFull.Endures may host store' after) :
    WriteOutIfFullRun may store host store' after := by
  unfold writeOutIfFull at run
  cases hfull : store.memtable.isFull store.writeBufferSize with
  | false =>
    simp only [hfull, Bool.not_false, if_true] at run
    cases run
    exact .below hfull
  | true =>
    simp only [hfull, Bool.not_true] at run
    obtain ⟨⟨result, written⟩, between, hwrite, hrest⟩ := run.of_bind
    cases result with
    | error e =>
      obtain ⟨_, told, htell, hdone⟩ := hrest.of_bind
      cases hdone
      exact .putOff hwrite htell
    | ok done =>
      cases hrest
      exact .written hwrite

/-- The logging of an operation, and what follows if it was logged. -/
inductive CommitRun (may : Host → Call → Prop) (store : Portable) (operation : Log.Operation)
    (host : Host) : Except Error Unit → Portable → Host → Prop where
  | unlogged {e : Error} {log : Log.Appender} {after : Host} :
      (store.log.append operation).Endures may host (.error e, log) after →
      CommitRun may store operation host (.error e) { store with log } after
  | logged {lsn : UInt64} {log : Log.Appender} {store' : Portable} {between after : Host} :
      (store.log.append operation).Endures may host (.ok lsn, log) between →
      Script.Endures may
        (writeOutIfFull
          { store with log, memtable := store.memtable.applyAll operation.mutations })
        between store' after →
      CommitRun may store operation host (.ok ()) store' after

theorem commit_run (run : (store.commit operation).Endures may host (result, store') after) :
    CommitRun may store operation host result store' after := by
  unfold commit at run
  obtain ⟨⟨appended, log⟩, between, happend, hrest⟩ := run.of_bind
  cases appended with
  | error e =>
    cases hrest
    exact .unlogged happend
  | ok lsn =>
    obtain ⟨written, last, hwrite, hdone⟩ := hrest.of_bind
    cases hdone
    exact .logged happend hwrite

/-- The closing of a store. Its lock is given up at the end, or at once where it could not be
written out. -/
inductive CloseRun (may : Host → Call → Prop) (store : Portable) (host : Host) :
    Except Error Unit → Host → Prop where
  | unwritten {e : Error} {store' : Portable} {between after : Host} :
      store.writeOut.Endures may host (.error e, store') between →
      store.abandon.Endures may between () after →
      CloseRun may store host (.error e) after
  | written {store' : Portable} {result : Except Error Unit} {log : Log.Appender}
      {reporting : Bool} {message : String} {between synced told after : Host} :
      store.writeOut.Endures may host (.ok (), store') between →
      store'.log.sync.Endures may between (result, log) synced →
      (tell reporting message).Endures may synced () told →
      store'.abandon.Endures may told () after →
      CloseRun may store host result after

theorem close_run (run : store.close.Endures may host result after) :
    CloseRun may store host result after := by
  unfold close at run
  obtain ⟨⟨written, store'⟩, between, hwrite, hrest⟩ := run.of_bind
  cases written with
  | error e =>
    obtain ⟨_, last, habandon, hdone⟩ := hrest.of_bind
    cases hdone
    exact .unwritten hwrite habandon
  | ok done =>
    obtain ⟨⟨result, log⟩, synced, hsync, hrest⟩ := hrest.of_bind
    cases result with
    | error e =>
      obtain ⟨_, last, habandon, hdone⟩ := hrest.of_bind
      cases hdone
      have hsilent : (tell false "").Endures may synced () synced := .done
      exact .written hwrite hsync hsilent habandon
    | ok done =>
      obtain ⟨_, told, htell, hrest⟩ := hrest.of_bind
      obtain ⟨_, last, habandon, hdone⟩ := hrest.of_bind
      cases hdone
      exact .written hwrite hsync htell habandon

/-- A write-out of what was replayed. -/
inductive WriteOutReplayedRun (may : Host → Call → Prop) (log : Log.Appender)
    (tables : TableStack) (memtable : Memtable) (host : Host) :
    Except Error (Log.Appender × TableStack) → Host → Prop where
  | nothing : memtable.isEmpty = true →
      WriteOutReplayedRun may log tables memtable host (.ok (log, tables)) host
  | unflushed {e : Error} {tables' : TableStack} {reporting : Bool} {message : String}
      {told after : Host} :
      memtable.isEmpty = false → (tell reporting message).Endures may host () told →
      (tables.flush memtable).Endures may told (.error e, tables') after →
      WriteOutReplayedRun may log tables memtable host (.error e) after
  | flushed {summary : Table.Summary} {tables' : TableStack} {emptied : Except Error Unit}
      {log' : Log.Appender} {reporting : Bool} {message : String} {told between after : Host} :
      memtable.isEmpty = false → (tell reporting message).Endures may host () told →
      (tables.flush memtable).Endures may told (.ok summary, tables') between →
      log.truncate.Endures may between (emptied, log') after →
      WriteOutReplayedRun may log tables memtable host (emptied.map fun _ => (log', tables')) after

theorem writeOutReplayed_run {log : Log.Appender} {tables : TableStack} {memtable : Memtable}
    {reporting : Bool} {result : Except Error (Log.Appender × TableStack)}
    (run : (writeOutReplayed log tables memtable reporting).run.Endures may host result after) :
    WriteOutReplayedRun may log tables memtable host result after := by
  unfold writeOutReplayed at run
  cases hempty : memtable.isEmpty with
  | true =>
    simp only [hempty, if_true] at run
    cases run
    exact .nothing hempty
  | false =>
    simp only [hempty] at run
    obtain ⟨_, told, htell, hrest⟩ := Action.endures_ofScript_bind run
    obtain ⟨⟨flushed, tables'⟩, between, hflush, hlast⟩ := Action.endures_ofScript_bind hrest
    cases flushed with
    | error e =>
      cases hlast
      exact .unflushed hempty htell hflush
    | ok summary =>
      obtain ⟨⟨emptied, log'⟩, _, htruncate, hend⟩ := Action.endures_ofScript_bind hlast
      cases emptied with
      | error e =>
        cases hend
        exact .flushed hempty htell hflush htruncate
      | ok done =>
        cases hend
        exact .flushed hempty htell hflush htruncate

/-- An opening. It ends at the directory, at its lock, or behind it, and what fails behind the lock
gives it up. -/
inductive StartRun (may : Host → Call → Prop) (config : Config) (host : Host) :
    Except Error Portable → Host → Prop where
  | unprepared {e : Error} {after : Host} :
      (prepareDirectory config).run.Endures may host (.error e) after →
      StartRun may config host (.error e) after
  | unlocked {e : Error} {prepared after : Host} :
      (prepareDirectory config).run.Endures may host (.ok ()) prepared →
      (acquire config.path).run.Endures may prepared (.error e) after →
      StartRun may config host (.error e) after
  | unloaded {e : Error} {lockFile : Handle} {prepared locked between after : Host} :
      (prepareDirectory config).run.Endures may host (.ok ()) prepared →
      (acquire config.path).run.Endures may prepared (.ok lockFile) locked →
      (load config lockFile).run.Endures may locked (.error e) between →
      (Script.call (.unlock lockFile)).Endures may between () after →
      StartRun may config host (.error e) after
  | opened {store : Portable} {lockFile : Handle} {prepared locked after : Host} :
      (prepareDirectory config).run.Endures may host (.ok ()) prepared →
      (acquire config.path).run.Endures may prepared (.ok lockFile) locked →
      (load config lockFile).run.Endures may locked (.ok store) after →
      StartRun may config host (.ok store) after

theorem start_run {config : Config} {result : Except Error Portable}
    (run : (start config).run.Endures may host result after) :
    StartRun may config host result after := by
  unfold start at run
  rcases Action.endures_bind run with ⟨e, rfl, hprepare⟩ | ⟨_, prepared, hprepare, hrest⟩
  · exact .unprepared hprepare
  rcases Action.endures_bind hrest with ⟨e, rfl, hacquire⟩ | ⟨lockFile, locked, hacquire, hlast⟩
  · exact .unlocked hprepare hacquire
  obtain ⟨loaded, between, hload, hend⟩ := hlast.of_bind
  cases loaded with
  | ok store =>
    cases hend
    exact .opened hprepare hacquire hload
  | error e =>
    obtain ⟨_, freed, hunlock, hdone⟩ := hend.of_bind
    cases hdone
    exact .unloaded hprepare hacquire hload hunlock

end OrderedStore.Portable
