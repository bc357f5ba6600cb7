import OrderedStore.Proofs.Portable.Carrying
import OrderedStore.Proofs.Portable.Exclusion
import OrderedStore.Proofs.TableStack.Stowage

/-!
# What a store puts into its tables

Wherever the opening, a change or the closing of a store ends, at most one table is new, and its
entries came through the log.

Main definition: `Portable.Equipped`, what is said of an open store.

Main statements: `Portable.change_advances`, `Portable.close_stows`, `Portable.start_stows`.
-/

namespace OrderedStore.Portable

open Log (Legible)
open TableStack (TablesKept Stows Furnished Shelved Advances Stocked numberBehind)

variable {may : Host → Call → Prop} {v w : View} {host between after : Host} {root : Location}
  {count : Nat} {config : Config} {lockFile : Handle} {store store' : Portable}
  {result : Except Error Unit} {operation : Log.Operation}

/-! ## Files that are no tables -/

theorem TablesKept.of_tended {handle : Handle} (h : Tended (logPlace root) handle host after) :
    TablesKept host.view after.view :=
  .of_sameBut h.same nameKind_logName

theorem TablesKept.of_shows {ops : List Log.Operation} (h : Log.Shows v (logPlace root) ops host) :
    TablesKept v host.view :=
  .of_sameBut h.same nameKind_logName

theorem TablesKept.of_quiet (h : Quiet v root w) : TablesKept v w := by
  refine ⟨h.base, fun place name id hkind => ?_⟩
  refine (h.file? (place ++ [name])).resolve_right fun hnew => ?_
  rw [(entry_inj hnew.1).2, nameKind_lockName] at hkind
  cases hkind

theorem TablesKept.of_tell {reporting : Bool} {message : String} {done : Unit} (sound : host.Sound)
    (run : (tell reporting message).Endures may host done after) :
    TablesKept host.view after.view := by
  rw [(tell_endured sound run).2.2]
  exact .refl _

theorem TablesKept.of_unlock {handle : Handle} {done : Unit} (sound : host.Sound)
    (run : (Script.call (.unlock handle)).Endures may host done after) :
    TablesKept host.view after.view := by
  rw [(unlock_endured sound run).2]
  exact ⟨rfl, fun _ _ _ _ => rfl⟩

/-! ## Uses -/

section Uses

variable {dir : Location} (sound : host.Sound)
  (log : ∃ bytes, host.view.file? (logPlace root) = some (store.log.handle.id, bytes))
  (home : host.view.ending store.tables.directory = dir) (carried : store.memtable.Carried)
include sound log home carried

theorem writeOut_advances (run : store.writeOut.Endures may host (result, store') after) :
    Advances store.tables store'.tables host.view dir after.view := by
  cases writeOut_run run with
  | nothing _ => exact (TablesKept.refl _).advances _ _
  | unflushed hnonempty hflush =>
    exact .of_flushed (TableStack.flush_endured_any sound home hnonempty hflush) carried
  | @flushed _ _ _ _ _ _ between _ _ hnonempty hflush htruncate htell =>
    have hattempt := TableStack.flush_endured_any sound home hnonempty hflush
    have hadvances := Advances.of_flushed hattempt carried
    obtain ⟨hadded, _⟩ := hattempt
    -- Behind the new table only the log is touched.
    have hwritten : Spent root store.log.handle host between :=
      .of_sweptOr (Or.inr hadded) store.tables.nextId.toNat_lt log
    have htended := tended_of_only hwritten.sound hwritten.log (only_log_truncate _) htruncate
    exact (hadvances.trans_same (TablesKept.of_tended htended)).trans_same
      (TablesKept.of_tell htended.sound htell)

theorem writeOutIfFull_advances (run : store.writeOutIfFull.Endures may host store' after) :
    Advances store.tables store'.tables host.view dir after.view := by
  cases writeOutIfFull_run run with
  | below _ => exact (TablesKept.refl _).advances _ _
  | written hwrite => exact writeOut_advances sound log home carried hwrite
  | putOff hwrite htell =>
    -- The failure is only reported.
    exact (writeOut_advances sound log home carried hwrite).trans_same
      (TablesKept.of_tell (writeOut_spent sound log hwrite).1.sound htell)

theorem commit_advances
    (run : (store.commit operation).Endures may host (result, store') after) :
    Advances store.tables store'.tables host.view dir after.view := by
  cases commit_run run with
  | unlogged happend =>
    have htended := tended_of_only sound log (only_log_append _ _) happend
    exact (TablesKept.of_tended htended).advances _ _
  | @logged lsn log' _ logged _ happend hwrite =>
    have htended := tended_of_only sound log (only_log_append _ _) happend
    have hsame := TablesKept.of_tended htended
    have hfits := happend.gives (Log.gives_append_fits _ _) lsn rfl
    -- The store with the operation in its memtable has the same tables.
    let filled : Portable :=
      { store with log := log', memtable := store.memtable.applyAll operation.mutations }
    have hlog :
        ∃ bytes, logged.view.file? (logPlace root) = some (filled.log.handle.id, bytes) := by
      rw [show filled.log.handle = _ from happend.gives (gives_log_append _ _)]
      exact htended.file
    have hhome : logged.view.ending filled.tables.directory = dir := by
      rw [View.ending_congr hsame.base, home]
    have hfilled : filled.memtable.Carried :=
      carried.applyAll fun mutation hmem => Log.carried_of_mem hmem hfits
    have hadvances := writeOutIfFull_advances htended.sound hlog hhome hfilled hwrite
    exact hsame.trans_advances hadvances

/-- A change puts one table at most into the directory. -/
theorem change_advances {change : Change}
    (run : (store.change change).Endures may host (result, store') after) :
    Advances store.tables store'.tables host.view dir after.view := by
  rcases change.commits with ⟨operation, _, h⟩ | ⟨_, h⟩ <;> rw [h store] at run
  · exact commit_advances sound log home carried run
  · cases run
    exact (TablesKept.refl _).advances _ _

/-- So does the closing of a store. -/
theorem close_stows (run : store.close.Endures may host result after) :
    Stows host.view dir store.tables.nextId.toNat after.view := by
  cases close_run run with
  | unwritten hwrite habandon =>
    have hstows := (writeOut_advances sound log home carried hwrite).stows
    obtain ⟨hspent, _⟩ := writeOut_spent sound log hwrite
    exact hstows.trans_same (TablesKept.of_unlock hspent.sound habandon)
  | written hwrite hsync htell habandon =>
    have hstows := (writeOut_advances sound log home carried hwrite).stows
    obtain ⟨hspent, hkin⟩ := writeOut_spent sound log hwrite
    have htended := tended_of_only hspent.sound hspent.log (only_log_sync hkin.handle) hsync
    obtain ⟨_, hsound, _⟩ := tell_endured htended.sound htell
    exact ((hstows.trans_same (TablesKept.of_tended htended)).trans_same
      (TablesKept.of_tell htended.sound htell)).trans_same (TablesKept.of_unlock hsound habandon)

end Uses

/-! ## Openings -/

/-- What is said of an open store: what it has in its memtable came through the log, and it has open
tables of its directory. -/
structure Equipped (store : Portable) (count : Nat) (host : Host) : Prop where
  carried : store.memtable.Carried
  shelved : store.tables.Shelved host.view (tablesPlace (host.view.ending store.directory)) count

/-- A write-out of what was replayed puts one table at most into the directory. -/
theorem writeOutReplayed_advances {log : Log.Appender} {tables : TableStack} {memtable : Memtable}
    {bytes : Bytes} {dir : Location} {reporting : Bool}
    {result : Except Error (Log.Appender × TableStack)}
    (holds : log.Holds host.view (logPlace root) bytes host)
    (home : host.view.ending tables.directory = dir) (carried : memtable.Carried)
    (run : (writeOutReplayed log tables memtable reporting).run.Endures may host result after) :
    after.Sound ∧ Stows host.view dir tables.nextId.toNat after.view ∧
      ∀ log' tables', result = .ok (log', tables') →
        Advances tables tables' host.view dir after.view := by
  cases writeOutReplayed_run run with
  | nothing _ =>
    have hadvances := (TablesKept.refl host.view).advances tables dir
    refine ⟨holds.sound, hadvances.stows, ?_⟩
    rintro log' tables' heq
    cases heq
    exact hadvances
  | unflushed hnonempty htell hflush =>
    obtain ⟨_, hsound, hview⟩ := tell_endured holds.sound htell
    rw [← hview] at home ⊢
    have hattempt := TableStack.flush_endured_any hsound home hnonempty hflush
    have hstows := (Advances.of_flushed hattempt carried).stows
    obtain _ | hswept := hattempt
    refine ⟨?_, hstows, fun _ _ heq => by cases heq⟩
    rcases hswept with hdraft | hadded
    · exact hdraft.sound
    · exact hadded.sound
  | @flushed _ _ emptied _ _ _ _ between _ hnonempty htell hflush htruncate =>
    obtain ⟨_, hsound, hview⟩ := tell_endured holds.sound htell
    have hlog := holds.file
    rw [← hview] at home hlog ⊢
    have hattempt := TableStack.flush_endured_any hsound home hnonempty hflush
    have hadvances := Advances.of_flushed hattempt carried
    obtain ⟨hadded, _⟩ := hattempt
    have hkept : ∃ bytes, between.view.file? (logPlace root) = some (log.handle.id, bytes) :=
      ⟨bytes, (added_file?_eq hadded tables.nextId.toNat_lt nameKind_logName).trans hlog⟩
    have htended := tended_of_only hadded.sound hkept (only_log_truncate _) htruncate
    have htruncated := hadvances.trans_same (TablesKept.of_tended htended)
    refine ⟨htended.sound, htruncated.stows, ?_⟩
    rintro log'' tables'' heq
    cases emptied with
    | error e => cases heq
    | ok done =>
      cases heq
      exact htruncated

/-- The next number is the one behind those of all tables. -/
theorem shelved_of_stocked {tables : TableStack} {ids : List Nat} {dir : Location}
    (stocked : Stocked tables.tables v dir ids) (next : tables.nextId = numberBehind ids)
    (home : v.ending tables.directory = dir) (furnished : Furnished v count)
    (enough : count + 1 < UInt64.size) : tables.Shelved v dir count := by
  have hle : ∀ id, TableStack.Numbered v dir id → id ≤ count := fun id => furnished.numbered
  refine ⟨home, ⟨ids, stocked.shown, fun id hmem => ?_⟩, ?_⟩
  · rw [next]
    refine stocked.lt_numberBehind (fun hlast => ?_) ((stocked.full id).2 hmem)
    have := hle _ hlast
    omega
  · rw [next]
    cases ids with
    | nil => exact Nat.le_add_left 1 count
    | cons id ids =>
      have hid := hle id ((stocked.full id).2 List.mem_cons_self)
      have hsize : UInt64.size = 2 ^ 64 := rfl
      simp only [numberBehind, List.head?_cons, Option.map_some, Option.getD_some,
        UInt64.toNat_add, UInt64.toNat_ofNat', UInt64.toNat_one]
      omega

section Opening

variable (sound : host.Sound) (furnished : Furnished host.view count)
  (enough : count + 2 < UInt64.size)
  (legible : ∀ host id bytes, host.view.file? (logPlace root) = some (id, bytes) →
    Legible may host id)
include sound furnished enough legible

/-- Log and tables are opened with one table more at most. -/
theorem load_stows {result : Except Error Portable} (reaches : host.view.Reaches config.path root)
    (run : (load config lockFile).run.Endures may host result after) :
    after.Sound ∧
      (∃ number ≤ count + 1, Stows host.view (tablesPlace root) number after.view) ∧
      ∀ store, result = .ok store → store.Equipped (count + 1) after := by
  unfold load at run
  have hhome : host.view.ending (config.path.child tablesName) = tablesPlace root :=
    reaches.ending_child
  have hstart := @TableStack.ensures_start_any .frail _ _ _ config.blockSize sound hhome
  rcases hstart.endured_bind ((TableStack.brittle_start _ _).settles host) run with
    ⟨⟨e, rfl⟩, hswept⟩ |
    ⟨tables, opened, ⟨hswept, hdirectory, hreaches, ids, hstocked, hnext, _⟩, hrest⟩
  · exact ⟨hswept.sound, ⟨0, Nat.zero_le _, (TablesKept.of_swept hswept.same).stows _ 0⟩,
      fun _ heq => by cases heq⟩
  have hopened := TablesKept.of_swept hswept.same
  have hnames := (hswept.same.reaches reaches).names (show PlainName logName by decide)
  rcases openLog_endured hswept.sound hnames legible hrest with
    ⟨⟨e, rfl⟩, hshows⟩ | ⟨memtable, log, bytes, started, hlast, hshows, holds, hrecalled⟩
  · exact ⟨hshows.sound,
      ⟨0, Nat.zero_le _, (hopened.trans (TablesKept.of_shows hshows)).stows _ 0⟩,
      fun _ heq => by cases heq⟩
  have hstarted := hopened.trans (TablesKept.of_shows hshows)
  have hhome' : started.view.ending tables.directory = tablesPlace root := by
    rw [View.ending_congr hstarted.base, hdirectory, hhome]
  have hshelved : tables.Shelved started.view (tablesPlace root) count :=
    shelved_of_stocked (hstocked.congr (table_file?_of_shows hshows _)) hnext hhome'
      (furnished.congr hstarted) (Nat.lt_of_succ_lt enough)
  have hcarried : memtable.Carried :=
    Log.carried_of_length_le (fun operation => Log.length_le_of_mem_operations)
      fun key value? hfind => by rw [← hfind, hrecalled]; rfl
  rcases Action.endures_bind hlast with ⟨e, rfl, hwrite⟩ | ⟨⟨log', tables'⟩, written, hwrite, hend⟩
  · obtain ⟨hsound, hstows, _⟩ := writeOutReplayed_advances holds hhome' hcarried hwrite
    exact ⟨hsound, ⟨_, hshelved.next, hstarted.trans_stows hstows⟩, fun _ heq => by cases heq⟩
  obtain ⟨hsound, hstows, hadvances⟩ := writeOutReplayed_advances holds hhome' hcarried hwrite
  obtain ⟨_, shown, htell, hend⟩ := Action.endures_ofScript_bind hend
  have htold := TablesKept.of_tell hsound htell
  cases hend
  refine ⟨(tell_endured hsound htell).2.1,
    ⟨_, hshelved.next, (hstarted.trans_stows hstows).trans_same htold⟩, ?_⟩
  rintro store heq
  cases heq
  refine ⟨Memtable.carried_empty, ?_⟩
  have hall := (hadvances _ _ rfl).trans_same htold
  have hroot : after.view.ending config.path = root := by
    rw [View.ending_congr hall.stows.base, View.ending_congr hstarted.base]
    exact reaches.eq_ending.symm
  rw [hroot]
  exact hshelved.advances hall enough

/-- A directory that nobody has locked is opened with one table more at most. -/
theorem start_stows {result : Except Error Portable} (home : host.view.ending config.path = root)
    (unlocked : Unlocked host.view root)
    (run : (start config).run.Endures may host result after) :
    (∃ number ≤ count + 1, Stows host.view (tablesPlace root) number after.view) ∧
      ∀ store, result = .ok store → store.Equipped (count + 1) after := by
  rcases start_locked sound home unlocked run with
    ⟨⟨e, rfl⟩, _, hquiet, _⟩ | ⟨lockFile, locked, between, hlocked, hload, hend⟩
  · exact ⟨⟨0, Nat.zero_le _, (TablesKept.of_quiet hquiet).stows _ 0⟩, fun _ heq => by cases heq⟩
  have hsame := TablesKept.of_quiet hlocked.quiet
  obtain ⟨hsound, ⟨number, hnumber, hstows⟩, hequipped⟩ :=
    load_stows hlocked.sound (furnished.congr hsame) enough legible hlocked.reaches hload
  rcases hend with ⟨_, rfl⟩ | ⟨⟨e, rfl⟩, hunlock⟩
  · exact ⟨⟨number, hnumber, hsame.trans_stows hstows⟩, hequipped⟩
  · exact ⟨⟨number, hnumber, (hsame.trans_stows hstows).trans_same
      (TablesKept.of_unlock hsound hunlock)⟩, fun _ heq => by cases heq⟩

end Opening

end OrderedStore.Portable
