import OrderedStore.Proofs.Log.Canonical
import OrderedStore.Proofs.Portable.Obstruction
import OrderedStore.Proofs.Portable.Recoverable

/-!
# Log and tables of any directory

A directory that is opened may hold anything, and any call may be refused in the course of it, but
that what can be read of the log can be read. Wherever the opening of its log and tables ends, what
can be recovered is as before, and all files but the log, the drafts and the tables are as well.

Main definitions:

- `Portable.Spares`: what is kept of other files.
- `Portable.Left`: what an opening leaves.

Main statements: `Portable.writeOutReplayed_endured`, `Portable.load_endured`.
-/

namespace OrderedStore.Portable

open Log (told operations Operation Legible)
open TableStack (nameKind fileName Numbered tableSays Added SweptOr Stocked numberBehind)

variable {may : Host → Call → Prop} {u v w : View} {host after : Host} {config : Config}
  {root dir : Location} {name : String} {number : Nat} {ids : List Nat} {locked : List Nat}
  {bytes : Bytes} {tables : TableStack} {log : Log.Appender} {memtable : Memtable}
  {lockFile : Handle}

/-! ## What is kept -/

/-- A new table is no foreign file. -/
theorem added_file?_eq {entries : List TableEntry} (h : Added v dir number entries host)
    (small : number < UInt64.size) {other : Location} (hkind : nameKind name = .foreign) :
    host.view.file? (other ++ [name]) = v.file? (other ++ [name]) := by
  obtain ⟨w, id, hswept, hview⟩ := h.added
  have hnew : other ++ [name] ≠ dir ++ [fileName number] := by
    intro heq
    rw [(entry_inj heq).2, TableStack.nameKind_fileName small] at hkind
    cases hkind
  have hdraft : nameKind name ≠ .draft := by
    rw [hkind]
    intro h
    cases h
  rw [hview, View.put_file?_of_ne _ _ hnew, hswept.file?_eq hdraft]

theorem added_locked {entries : List TableEntry} (h : Added v dir number entries host) :
    host.view.locked = v.locked := by
  obtain ⟨w, id, hswept, hview⟩ := h.added
  rw [hview]
  exact hswept.locked

/-- Directories stay, and so do all files but drafts, tables, and the log of a directory. -/
structure Spares (v : View) (root : Location) (w : View) : Prop where
  base : w.base = v.base
  kept : ∀ place, v.directory place = true → w.directory place = true
  foreign : ∀ dir name file, nameKind name = .foreign → dir ++ [name] ≠ logPlace root →
    v.file? (dir ++ [name]) = some file → w.file? (dir ++ [name]) = some file

namespace Spares

theorem refl (v : View) (root : Location) : Spares v root v :=
  ⟨rfl, fun _ h => h, fun _ _ _ _ _ h => h⟩

theorem trans (h : Spares u root v) (h' : Spares v root w) : Spares u root w where
  base := h'.base.trans h.base
  kept place hdir := h'.kept place (h.kept place hdir)
  foreign dir name file hkind hne hfile :=
    h'.foreign dir name file hkind hne (h.foreign dir name file hkind hne hfile)

theorem of_swept (h : v.Swept w dir) (root : Location) : Spares v root w where
  base := h.base
  kept := h.kept
  foreign other name file hkind _ hfile := by
    rw [h.file?_eq, hfile]
    rw [hkind]
    intro h
    cases h

theorem of_log (h : v.SameBut w (logPlace root)) : Spares v root w where
  base := h.base
  kept _ hdir := by rwa [h.directory]
  foreign _ _ _ _ hne hfile := by rwa [h.file? _ hne]

theorem of_added {entries : List TableEntry} (h : Added v dir number entries host)
    (small : number < UInt64.size) (root : Location) : Spares v root host.view where
  base := by
    obtain ⟨w, id, hswept, hview⟩ := h.added
    rw [hview]
    exact hswept.base
  kept := by
    obtain ⟨w, id, hswept, hview⟩ := h.added
    rw [hview]
    exact hswept.kept
  foreign _ _ _ hkind _ hfile := (added_file?_eq h small hkind).trans hfile

theorem reaches (h : Spares v root w) {path : Path} {place : Location}
    (hreaches : v.Reaches path place) : w.Reaches path place :=
  hreaches.mono h.base h.kept

end Spares

/-- If the log of a directory says anything, there is a number left for a table that says it. -/
def Roomy (v : View) (root : Location) : Prop :=
  (∃ key, logSays v root key ≠ none) → ¬ Numbered v (tablesPlace root) (UInt64.size - 1)

theorem Roomy.congr (roomy : Roomy v root)
    (hlog : ∀ key, logSays w root key = logSays v root key)
    (htables : ∀ name id, nameKind name = .table id →
      w.file? (tablesPlace root ++ [name]) = v.file? (tablesPlace root ++ [name])) :
    Roomy w root := by
  rintro ⟨key, hkey⟩ hnumbered
  refine roomy ⟨key, ?_⟩ ((TableStack.numbered_congr htables).1 hnumbered)
  rwa [← hlog]

theorem Roomy.of_swept (roomy : Roomy v root) (swept : v.Swept w dir) : Roomy w root := by
  have hsame : ∀ {other : Location} {name : String}, nameKind name ≠ .draft →
      w.file? (other ++ [name]) = v.file? (other ++ [name]) := swept.file?_eq
  refine roomy.congr (logSays_congr (hsame ?_)) fun name id hkind => hsame ?_
  · simp [nameKind_logName]
  · simp [hkind]

theorem Roomy.of_shows (roomy : Roomy v root)
    (shows : Log.Shows v (logPlace root) (operations (v.bytesAt (logPlace root))) host) :
    Roomy host.view root := by
  refine roomy.congr (fun key => ?_) (table_file?_of_shows shows _)
  rw [logSays, logSays, shows.shown]

/-- What an opening leaves of a view: certain locks, all files that it has no business with, and
what can be recovered. -/
structure Left (v : View) (root : Location) (locked : List Nat) (host : Host) : Prop where
  sound : host.Sound
  locked : host.view.locked = locked
  spares : Spares v root host.view
  content : Roomy v root → SameContent v host.view

theorem Left.refl (sound : host.Sound) (root : Location) :
    Left host.view root host.view.locked host :=
  ⟨sound, rfl, .refl _ _, fun _ => .refl _⟩

/-- What is left after one more step. -/
theorem Left.then {between : Host} (h : Left v root locked between) (sound : after.Sound)
    (hlocked : after.view.locked = between.view.locked)
    (spares : Spares between.view root after.view)
    (content : Roomy v root → SameContent between.view after.view) : Left v root locked after where
  sound := sound
  locked := hlocked.trans h.locked
  spares := h.spares.trans spares
  content roomy := (h.content roomy).trans (content roomy)

theorem Left.trans {between : Host} (h : Left v root locked between)
    (h' : Left between.view root between.view.locked after)
    (roomy : Roomy v root → Roomy between.view root) : Left v root locked after :=
  h.then h'.sound h'.locked h'.spares fun hroomy => h'.content (roomy hroomy)

theorem Left.sameView {between : Host} (h : Left v root locked between) (sound : after.Sound)
    (hview : after.view = between.view) : Left v root locked after :=
  ⟨sound, hview ▸ h.locked, hview ▸ h.spares, hview ▸ h.content⟩

theorem SameContent.of_swept (h : v.Swept w dir) : SameContent v w := by
  refine .of_idle fun place => (h.file? place).imp_right ?_
  rintro ⟨name, rfl, hdraft⟩
  refine ⟨dir, name, rfl, ?_, fun id hkind => ?_⟩
  · rintro rfl
    cases hdraft.symm.trans nameKind_logName
  · cases hdraft.symm.trans hkind

theorem Left.of_swept (swept : host.Swept v dir) (root : Location) :
    Left v root v.locked host :=
  ⟨swept.sound, swept.same.locked, .of_swept swept.same root, fun _ => .of_swept swept.same⟩

/-- A log that shows the same operations. -/
theorem Left.of_shows (shows : Log.Shows v (logPlace root) (operations (v.bytesAt (logPlace root)))
    host) : Left v root v.locked host :=
  ⟨shows.sound, shows.same.locked, .of_log shows.same, fun _ => .of_log shows⟩

/-! ## What was replayed -/

/-- A table that says what the log says is no news, and may stand in for the log. -/
theorem Added.content (added : Added v (tablesPlace root) number memtable.toList host)
    (small : number < UInt64.size)
    (fresh : ∀ other, Numbered v (tablesPlace root) other → other < number)
    (recalled : ∀ key, memtable.find? key = logSays v root key) :
    SameContent v host.view ∧ Covers host.view root number := by
  obtain ⟨w, id, hswept, hview⟩ := added.added
  have hlog : ∀ key, logSays host.view root key = logSays v root key :=
    logSays_congr (added_file?_eq added small nameKind_logName)
  have hfresh : ∀ other, Numbered w (tablesPlace root) other → other < number :=
    fun other hother => fresh other ((TableStack.numbered_of_swept hswept).1 hother)
  have hfile := View.file?_of_eq_put hview
  have hwell : Table.WellFormed memtable.toList := by
    have hshort : ∀ operation ∈ operations (v.bytesAt (logPlace root)),
        Log.Payload.length operation ≤ Log.Frame.payloadLimit :=
      fun operation => Log.length_le_of_mem_operations
    refine Log.wellFormed_of_length_le hshort fun key value? hfind => ?_
    rw [← hfind]
    exact (recalled key).symm
  have hcovers : Covers host.view root number := by
    refine ⟨small, fun other hother => ?_, fun key => ?_⟩
    · rw [hview, TableStack.numbered_put small] at hother
      rcases hother with hold | rfl
      · exact Nat.le_of_lt (hfresh other hold)
      · exact Nat.le_refl _
    · rw [tableSays, hfile, Option.bind_some,
        Table.consult?_image hwell (added.sound.length_le hfile), hlog, ← recalled]
      rfl
  exact ⟨(SameContent.of_swept hswept).trans (.of_newTable hcovers hfresh hview), hcovers⟩

theorem Left.of_added (added : Added v (tablesPlace root) number memtable.toList host)
    (small : number < UInt64.size)
    (fresh : Roomy v root → ∀ other, Numbered v (tablesPlace root) other → other < number)
    (recalled : ∀ key, memtable.find? key = logSays v root key) : Left v root v.locked host :=
  ⟨added.sound, added_locked added, .of_added added small root, fun roomy =>
    (Added.content added small (fresh roomy) recalled).1⟩

/-- The number behind those of all tables is a new one, unless there is none left. -/
theorem Roomy.fresh (roomy : Roomy v root)
    (stocked : Stocked tables.tables v (tablesPlace root) ids)
    (next : tables.nextId = numberBehind ids) (nonempty : memtable.isEmpty = false)
    (recalled : ∀ key, memtable.find? key = logSays v root key) {other : Nat}
    (hother : Numbered v (tablesPlace root) other) : other < tables.nextId.toNat := by
  obtain ⟨key, hkey⟩ := Memtable.exists_find?_of_isEmpty nonempty
  rw [next]
  exact stocked.lt_numberBehind (roomy ⟨key, recalled key ▸ hkey⟩) hother

/-- The new table is on top of the stack. -/
theorem Added.stocked {stack : List Table} {table : Table} {entries : List TableEntry}
    (added : Added v dir number entries host) (small : number < UInt64.size)
    (fresh : ∀ other, Numbered v dir other → other < number) (stocked : Stocked stack v dir ids)
    (shown : TableStack.Displays [table] host.view dir [number]) :
    Stocked (table :: stack) host.view dir (number :: ids) := by
  obtain ⟨w, id, hswept, hview⟩ := added.added
  have hstocked : Stocked stack w dir ids := stocked.congr fun _ _ => hswept.file?_table
  refine hstocked.added small (fun other hother => fresh other ?_) hview shown
  exact (TableStack.numbered_of_swept hswept).1 hother

/-- A log is emptied, or its emptying fails before or after it has done so. -/
theorem truncate_endured {emptied : Except Error Unit} {log' : Log.Appender} {target : Location}
    (holds : log.Holds v target bytes host)
    (run : log.truncate.Endures may host (emptied, log') after) :
    (emptied = .ok () ∧ log.Follows log' log.nextLsn ∧ log'.Holds v target [] after) ∨
      (∃ e, emptied = .error e) ∧
        (Log.Shows v target (operations bytes) after ∨ Log.Shows v target [] after) := by
  have hensures := @Log.Appender.ensures_truncate .frail _ _ _ _ _ holds
  rcases run.yields_or_stops (brittle_truncate log) with hyields | ⟨hfailed, hstops⟩
  · rcases hensures.yields hyields with ⟨_, heq, hafter⟩ | ⟨_, e, heq, hafter⟩
    · cases heq
      exact Or.inl ⟨rfl, hafter⟩
    · cases heq
      exact Or.inr ⟨⟨e, rfl⟩, Or.inl hafter.shows⟩
  · exact Or.inr ⟨hfailed, hensures.stops hstops⟩

/-- Behind a table that says what the log says, the log may be emptied or not. -/
theorem emptied_endured {emptied : Except Error Unit} {log' : Log.Appender}
    (left : Left v root v.locked host) (holds : log.Holds host.view (logPlace root) bytes host)
    (covers : Roomy v root → Covers host.view root number)
    (run : log.truncate.Endures may host (emptied, log') after) :
    Left v root v.locked after ∧ (emptied = .ok () →
      log.Follows log' log.nextLsn ∧ log'.Holds host.view (logPlace root) [] after) := by
  have hnone : Log.Shows host.view (logPlace root) [] after → Left v root v.locked after :=
    fun shows => left.then shows.sound shows.same.locked (.of_log shows.same) fun roomy =>
      (covers roomy).emptied shows
  rcases truncate_endured holds run with ⟨rfl, hfollows, hafter⟩ | ⟨⟨e, rfl⟩, hshows⟩
  · have hshows := hafter.shows
    rw [Log.operations_nil] at hshows
    exact ⟨hnone hshows, fun _ => ⟨hfollows, hafter⟩⟩
  · refine ⟨?_, fun hok => by cases hok⟩
    -- What failed left the log as it was, or empty.
    rcases hshows with hsame | hempty
    · rw [← View.bytesAt_of_file? holds.file] at hsame
      have hleft := Left.of_shows hsame
      exact left.then hleft.sound hleft.locked hleft.spares fun _ => .of_log hsame
    · exact hnone hempty

/-- A write-out of what was replayed may end anywhere, but what can be recovered is as before. -/
theorem writeOutReplayed_endured {reporting : Bool}
    {result : Except Error (Log.Appender × TableStack)}
    (stocked : Stocked tables.tables host.view (tablesPlace root) ids)
    (next : tables.nextId = numberBehind ids)
    (home : host.view.ending tables.directory = tablesPlace root)
    (holds : log.Holds host.view (logPlace root) bytes host)
    (recalled : ∀ key, memtable.find? key = logSays host.view root key)
    (run : (writeOutReplayed log tables memtable reporting).run.Endures may host result after) :
    Left host.view root host.view.locked after ∧ ∀ log' tables', result = .ok (log', tables') →
      log'.handle = log.handle ∧
        (∃ bytes, after.view.file? (logPlace root) = some (log.handle.id, bytes)) ∧
        (Roomy host.view root → Settled tables'.tables after.view root) := by
  cases writeOutReplayed_run run with
  | nothing hempty =>
    -- If nothing was replayed, the log says nothing, and there is nothing to do.
    refine ⟨.refl holds.sound root, ?_⟩
    rintro log' tables' heq
    cases heq
    refine ⟨rfl, ⟨bytes, holds.file⟩, fun _ => ⟨ids, stocked, fun key => ?_⟩⟩
    rw [← recalled, Memtable.find?_of_isEmpty hempty]
  | unflushed hnonempty htell hflush =>
    obtain ⟨_, hsound, hview⟩ := tell_endured holds.sound htell
    rw [← hview] at stocked home recalled ⊢
    obtain _ | hswept := TableStack.flush_endured_any hsound home hnonempty hflush
    refine ⟨?_, fun _ _ heq => by cases heq⟩
    rcases hswept with hdraft | hadded
    · exact .of_swept hdraft root
    · exact .of_added hadded tables.nextId.toNat_lt
        (fun roomy _ => roomy.fresh stocked next hnonempty recalled) recalled
  | @flushed _ _ emptied log' _ _ shown between _ hnonempty htell hflush htruncate =>
    obtain ⟨_, hsound, hview⟩ := tell_endured holds.sound htell
    have hlog := holds.file
    rw [← hview] at stocked home recalled hlog ⊢
    have hsmall : tables.nextId.toNat < UInt64.size := tables.nextId.toNat_lt
    obtain ⟨hadded, hdisplays⟩ := TableStack.flush_endured_any hsound home hnonempty hflush
    have hfresh : Roomy shown.view root →
        ∀ other, Numbered shown.view (tablesPlace root) other → other < tables.nextId.toNat :=
      fun roomy _ => roomy.fresh stocked next hnonempty recalled
    have hholds : log.Holds between.view (logPlace root) bytes between :=
      ⟨hadded.sound, .refl _ _, (added_file?_eq hadded hsmall nameKind_logName).trans hlog,
        holds.clean, holds.committed⟩
    obtain ⟨hleft, hdone⟩ := emptied_endured (.of_added hadded hsmall hfresh recalled) hholds
      (fun roomy => (Added.content hadded hsmall (hfresh roomy) recalled).2) htruncate
    refine ⟨hleft, ?_⟩
    rintro log'' tables'' heq
    cases emptied with
    | error e => cases heq
    | ok done =>
      cases heq
      obtain ⟨hfollows, hafter⟩ := hdone rfl
      refine ⟨hfollows.handle, ⟨[], ?_⟩, fun roomy => ?_⟩
      · rw [hafter.file, hfollows.handle]
      · -- The new table is on top of those that were found, and the log says nothing any more.
        have hshows := hafter.shows
        have hstocked := Added.stocked hadded hsmall (hfresh roomy) stocked hdisplays
        refine ⟨_, hstocked.congr (table_file?_of_shows hshows _), fun key => ?_⟩
        rw [logSays, hshows.shown, Log.operations_nil, Log.told_nil]

/-! ## A directory in place of the log -/

section Blocked

variable {path : Path} {target : Location} {reporting : Bool}

theorem only_probe_kept (path : Path) : (Action.probe path).Only Call.Kept :=
  Action.only_ofScript (Script.only_call (Call.kept_probe path))

/-- A log that is read to its end is left as it is, whatever stands in its place. -/
theorem only_drain_kept {α : Type} {f : List Log.Record × Option Error × Log.Stream → Action α}
    (rest : ∀ found, (f found).Only Call.Kept) :
    (do
      let stream ← Log.Stream.start path
      let found ← Action.ofScript stream.drain
      f found).Only Call.Kept := by
  have hstart : (Log.Stream.start path).Only Call.Kept :=
    (Action.only_attempt (Script.only_call (Call.kept_openFile_read path))).bind fun _ =>
      Action.only_pure _
  refine hstart.bind fun stream => Action.Only.bind ?_ rest
  exact Action.only_ofScript ((Log.Stream.only_drain stream).mono fun call reads => reads.kept)

variable (names : host.view.Names path target) (blocked : host.view.directory target = true)
include names blocked

/-- Nothing is replayed from a directory. -/
theorem replay_blocked {result : Except Error Memtable} (sound : host.Sound)
    (run : (replay path reporting).run.Endures may host result after) :
    after.Sound ∧ after.view = host.view := by
  have hscan : (Log.Recovery.scan path).Only Call.Kept :=
    only_drain_kept fun _ => Action.only_pure _
  have hopen : (Action.openFile path .update).Ensures .frail (· = host) (fun _ _ => False)
      (fun _ last => last = host) host :=
    Action.ensures_openFile_update_blocked names blocked rfl fun _ => rfl
  have hrecover : ∀ {recovered last},
      (Log.Recovery.recover path).run.Endures may host recovered last → last = host := by
    intro recovered last hrun
    rcases Action.endures_bind_kept hscan hrun with ⟨_, rfl⟩ | ⟨⟨records, recovery, length⟩, hrest⟩
    · rfl
    simp only at hrest
    split at hrest
    · cases hrest
      rfl
    · rcases hopen.endured_bind ((Action.brittle_openFile _ _).settles host) hrest with
        ⟨_, hlast⟩ | ⟨_, _, hnone, _⟩
      · exact hlast
      · exact hnone.elim
  unfold replay at run
  rcases Action.endures_bind_kept (only_probe_kept path) run with ⟨_, rfl⟩ | ⟨found, hrest⟩
  · exact ⟨sound, rfl⟩
  split at hrest
  · cases hrest
    exact ⟨sound, rfl⟩
  rcases Action.endures_bind hrest with
    ⟨_, _, hfirst⟩ | ⟨⟨records, recovery⟩, between, hfirst, hlast⟩
  · rw [hrecover hfirst]
    exact ⟨sound, rfl⟩
  rw [hrecover hfirst] at hlast
  simp only at hlast
  split at hlast
  · obtain ⟨_, told, htell, hdone⟩ := Action.endures_ofScript_bind hlast
    cases hdone
    exact (tell_endured sound htell).2
  · cases hlast
    exact ⟨sound, rfl⟩

/-- No log is started in place of a directory. -/
theorem start_blocked {policy : SyncPolicy} {result : Except Error Log.Appender}
    (run : (Log.Appender.start path policy).run.Endures may host result after) :
    (∃ e, result = .error e) ∧ after = host := by
  have hend : ∀ {last}, (Log.Appender.openEnd path policy last).run.Endures may host result after →
      (∃ e, result = .error e) ∧ after = host := by
    intro last hrun
    have hopen : (Action.openFile path .keep).Ensures .frail (· = host) (fun _ _ => False)
        (fun _ last => last = host) host :=
      Action.ensures_openFile_blocked (Or.inl rfl) names blocked rfl fun _ => rfl
    rcases hopen.endured_bind ((Action.brittle_openFile _ _).settles host) hrun with
      hfailed | ⟨_, _, hnone, _⟩
    · exact hfailed
    · exact hnone.elim
  have hlast : (Log.Appender.lastLsn path).Only Call.Kept :=
    only_drain_kept fun _ => Action.only_pure _
  rw [Log.Appender.start_eq] at run
  rcases Action.endures_bind_kept (only_probe_kept path) run with hfailed | ⟨found, hrest⟩
  · exact hfailed
  split at hrest
  · rcases Action.endures_bind_kept hlast hrest with hfailed | ⟨last, hrest⟩
    · exact hfailed
    · exact hend hrest
  · exact hend hrest

end Blocked

/-! ## Log and tables -/

/-- Whatever stands in place of the log, it is replayed and opened for appending, or this fails and
leaves what it says. -/
theorem openLog_endured {α : Type} {path : Path} {reporting : Bool} {policy : SyncPolicy}
    {rest : Memtable → Log.Appender → Action α} {result : Except Error α} (sound : host.Sound)
    (names : host.view.Names path (logPlace root))
    (legible : ∀ host id bytes, host.view.file? (logPlace root) = some (id, bytes) →
      Legible may host id)
    (run : (do
      let memtable ← replay path reporting
      let log ← Log.Appender.start path policy
      rest memtable log).run.Endures may host result after) :
    (∃ e, result = .error e) ∧ Log.Shows host.view (logPlace root)
        (operations (host.view.bytesAt (logPlace root))) after ∨
      ∃ memtable log bytes between, (rest memtable log).run.Endures may between result after ∧
        Log.Shows host.view (logPlace root) (operations (host.view.bytesAt (logPlace root)))
          between ∧
        log.Holds between.view (logPlace root) bytes between ∧
        ∀ key, memtable.find? key = logSays between.view root key := by
  have hsame : ∀ {last : Host}, last.Sound → last.view = host.view →
      Log.Shows host.view (logPlace root) (operations (host.view.bytesAt (logPlace root)))
        last := by
    intro last hsound hview
    rw [← hview]
    exact ⟨hsound, .refl _ _, rfl⟩
  by_cases hblocked : host.view.directory (logPlace root) = true
  · -- A directory says nothing as a log, but no log is opened there.
    refine Or.inl ?_
    rcases Action.endures_bind run with ⟨e, rfl, hfirst⟩ | ⟨memtable, replayed, hfirst, hrest⟩
    · obtain ⟨hsound, hview⟩ := replay_blocked names hblocked sound hfirst
      exact ⟨⟨e, rfl⟩, hsame hsound hview⟩
    obtain ⟨hsound, hview⟩ := replay_blocked names hblocked sound hfirst
    rw [← hview] at names hblocked
    rcases Action.endures_bind hrest with ⟨e, rfl, hsecond⟩ | ⟨log, started, hsecond, _⟩
    · obtain ⟨_, rfl⟩ := start_blocked names hblocked hsecond
      exact ⟨⟨e, rfl⟩, hsame hsound hview⟩
    · obtain ⟨⟨_, he⟩, _⟩ := start_blocked names hblocked hsecond
      cases he
  have hclear : host.view.directory (logPlace root) = false := by simpa using hblocked
  have hreplay := (@ensures_replay .frail _ _ _ reporting sound names hclear).mono (fun _ h => h)
    (fun _ _ h => h) (fun _ _ h => h.2)
  rcases hreplay.endured_bind (replay_settles names hclear legible) run with
    ⟨hfailed, hshows⟩ | ⟨memtable, replayed, ⟨hshows, hmemtable⟩, hrest⟩
  · exact Or.inl ⟨hfailed, hshows⟩
  have hnames := hshows.same.names names
  have hclear' : replayed.view.directory (logPlace root) = false := by
    rw [hshows.same.directory, hclear]
  have hback : ∀ last, Log.Shows replayed.view (logPlace root)
        (operations (replayed.view.bytesAt (logPlace root))) last →
      Log.Shows host.view (logPlace root) (operations (host.view.bytesAt (logPlace root))) last :=
    fun last h => ⟨h.sound, hshows.same.trans h.same, h.shown.trans hshows.shown⟩
  have hstart := (@Log.Appender.ensures_start .frail _ _ _ policy hshows.sound hnames hclear'
    fun hshort => (hmemtable hshort).1).mono (fun _ h => h) (fun _ _ h => h) (fun _ _ h => h.2)
  rcases hstart.endured_bind (Log.Appender.start_settles hnames hclear' (legible _)) hrest with
    ⟨hfailed, hlast⟩ | ⟨log, started, ⟨hshort, holds⟩, hlast⟩
  · exact Or.inl ⟨hfailed, hback after hlast⟩
  · have hlogged := hback started holds.shows
    refine Or.inr ⟨memtable, log, _, started, hlast, hlogged, holds.here, fun key => ?_⟩
    rw [(hmemtable hshort).2, logSays, hlogged.shown]

/-- What the opening of log and tables gives. -/
structure Loaded (config : Config) (lockFile : Handle) (v : View) (root : Location)
    (store : Portable) (host : Host) : Prop where
  directory : store.directory = config.path
  lockFile : store.lockFile = lockFile
  memtable : store.memtable = .empty
  log : ∃ bytes, host.view.file? (logPlace root) = some (store.log.handle.id, bytes)
  settled : Roomy v root → Settled store.tables.tables host.view root

/-- Log and tables of any directory are opened, or left to the next opening. -/
theorem load_endured {result : Except Error Portable} (sound : host.Sound)
    (reaches : host.view.Reaches config.path root)
    (legible : ∀ host id bytes, host.view.file? (logPlace root) = some (id, bytes) →
      Legible may host id)
    (run : (load config lockFile).run.Endures may host result after) :
    Left host.view root host.view.locked after ∧
      ∀ store, result = .ok store → Loaded config lockFile host.view root store after := by
  unfold load at run
  have hhome : host.view.ending (config.path.child tablesName) = tablesPlace root :=
    reaches.ending_child
  have hstart := @TableStack.ensures_start_any .frail _ _ _ config.blockSize sound hhome
  rcases hstart.endured_bind ((TableStack.brittle_start _ _).settles host) run with
    ⟨⟨e, rfl⟩, hswept⟩ |
    ⟨tables, opened, ⟨hswept, hdirectory, hreaches, ids, hstocked, hnext, _⟩, hrest⟩
  · exact ⟨.of_swept hswept root, fun _ heq => by cases heq⟩
  have hopened : Left host.view root host.view.locked opened := .of_swept hswept root
  have hroomy : ∀ {between : Host},
      Log.Shows opened.view (logPlace root) (operations (opened.view.bytesAt (logPlace root)))
        between → Roomy host.view root → Roomy between.view root :=
    fun shows roomy => (roomy.of_swept hswept.same).of_shows shows
  have hnames := (hswept.same.reaches reaches).names (show PlainName logName by decide)
  rcases openLog_endured hswept.sound hnames legible hrest with
    ⟨⟨e, rfl⟩, hshows⟩ | ⟨memtable, log, bytes, started, hlast, hshows, holds, hrecalled⟩
  · exact ⟨hopened.trans (.of_shows hshows) fun roomy => roomy.of_swept hswept.same,
      fun _ heq => by cases heq⟩
  have hstarted : Left host.view root host.view.locked started :=
    hopened.then hshows.sound hshows.same.locked (.of_log hshows.same) fun _ => .of_log hshows
  have hstocked' : Stocked tables.tables started.view (tablesPlace root) ids :=
    hstocked.congr (table_file?_of_shows hshows _)
  have hhome' : started.view.ending tables.directory = tablesPlace root := by
    rw [hdirectory]
    exact (hshows.same.reaches hreaches).eq_ending.symm
  rcases Action.endures_bind hlast with ⟨e, rfl, hwrite⟩ | ⟨⟨log', tables'⟩, written, hwrite, hend⟩
  · obtain ⟨hleft, _⟩ := writeOutReplayed_endured hstocked' hnext hhome' holds hrecalled hwrite
    exact ⟨hstarted.trans hleft (hroomy hshows), fun _ heq => by cases heq⟩
  obtain ⟨hleft, hdone⟩ := writeOutReplayed_endured hstocked' hnext hhome' holds hrecalled hwrite
  obtain ⟨hhandle, hfile, hsettled⟩ := hdone log' tables' rfl
  obtain ⟨_, shown, htell, hend⟩ := Action.endures_ofScript_bind hend
  obtain ⟨_, hsound, hview⟩ := tell_endured hleft.sound htell
  cases hend
  refine ⟨(hstarted.trans hleft (hroomy hshows)).sameView hsound hview, ?_⟩
  rintro store heq
  cases heq
  refine ⟨rfl, rfl, rfl, ?_, fun roomy => ?_⟩
  · rw [hview, hhandle]
    exact hfile
  · rw [hview]
    exact hsettled (hroomy hshows roomy)

end OrderedStore.Portable
