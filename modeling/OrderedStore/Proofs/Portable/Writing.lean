import OrderedStore.Proofs.Portable.Invariant

/-!
# Changing an open store

A mutation is logged, taken into the memtable and perhaps written out. Wherever this ends, the
directory holds the history from before, or the one with the new operation at its end; and the store
is left open on the one that its answer tells of.

Main statements: `Portable.ensures_commit`, `Portable.ensures_change`, `Portable.ensures_close`.
-/

namespace OrderedStore.Portable

open Log (Operation told Fit operations Loggable)
open TableStack (Volume Shelves Serves Stacked Kept KeptOr Fresh)

variable {conduct : Conduct} {v w : View} {host after : Host} {path : Path} {root : Location}
  {used : Nat} {ops ops' : List Operation} {operation : Operation} {store store' : Portable}
  {logged logged' recent served tabled : Nat} {volumes servedVolumes : List Volume}
  {bytes bytes' : Bytes}

/-! ## Changes of the parts -/

/-- The log of an open store changes. -/
theorem Serving.relog
    (h : Serving store root used ops logged recent served tabled volumes servedVolumes bytes
      host)
    (holds : store'.log.Holds host.view (logPlace root) bytes' after) (longer : ops <+: ops')
    (hlog : operations bytes' = ops'.drop logged') (le : logged' ≤ served)
    (memtable : ∀ key, store'.memtable.find? key = told (ops'.drop recent) key)
    (tables : store'.tables = store.tables) (lockFile : store'.lockFile = store.lockFile) :
    Serving store' root used ops' logged' recent served tabled volumes servedVolumes bytes'
      after := by
  have hsame := holds.same
  have helsewhere : ¬ tablesPlace root <+: logPlace root := not_prefix_tablesPlace (by decide)
  have hbytes : after.view.bytesAt (logPlace root) = bytes' := View.bytesAt_of_file? holds.file
  refine {
    log := holds.here
    holding := h.holding.ofLog hsame longer (Nat.le_trans le h.le_tabled) (by rw [hbytes, hlog])
    tables := ?_
    tablesPath := ?_
    memtable
    newest := ?_
    next := ?_
    next_le := ?_
    logged_le := le
    recent_le := h.recent_le
    le_tabled := h.le_tabled
    lock := ?_ }
  · rw [tables]
    exact ⟨⟨holds.sound, .refl _ _, h.tables.shelves.sameBut hsame helsewhere⟩,
      h.tables.serves.sameBut hsame helsewhere⟩
  · rw [tables]
    exact hsame.reaches h.tablesPath
  · intro key
    obtain ⟨more, rfl⟩ := longer
    rw [List.take_append_of_le_length (Nat.le_trans h.le_tabled h.holding.le_length), h.newest]
  · rw [tables]
    exact h.next
  · rw [tables]
    exact h.next_le
  · rw [lockFile]
    exact h.lock.sameBut hsame

theorem Serving.operations_eq
    (h : Serving store root used ops logged recent served tabled volumes servedVolumes bytes
      host) :
    operations bytes = ops.drop logged := by
  rw [← h.holding.log, View.bytesAt_of_file? h.log.file]

theorem Serving.sameView
    (h : Serving store root used ops logged recent served tabled volumes servedVolumes bytes
      host) (sound : after.Sound) (hview : after.view = host.view) :
    Serving store root used ops logged recent served tabled volumes servedVolumes bytes after :=
  h.relog (h.log.sameView sound hview) (List.prefix_refl _) h.operations_eq h.logged_le h.memtable
    rfl rfl

/-- The log is as it was. -/
theorem Serving.live_of_holds {log : Log.Appender}
    (h : Serving store root used ops logged recent served tabled volumes servedVolumes bytes
      host)
    (reaches : host.view.Reaches path root) (tidy : Tidy host.view root) (fit : Fit ops)
    (steady : conduct.Steady → logged = served ∧ served = tabled)
    (holds : log.Holds host.view (logPlace root) bytes after) :
    Live conduct path root used ops { store with log } after :=
  ⟨holds.same.reaches reaches, tidy.sameBut holds.same (by decide) (by decide), fit,
    logged, recent, served, tabled, volumes, servedVolumes, bytes,
    h.relog holds (List.prefix_refl _) h.operations_eq h.logged_le h.memtable rfl rfl, steady⟩

theorem Live.sameView (live : Live conduct path root used ops store host) (sound : after.Sound)
    (hview : after.view = host.view) : Live conduct path root used ops store after := by
  obtain ⟨logged, recent, served, tabled, volumes, servedVolumes, bytes, serving, steady⟩ :=
    live.parts
  exact serving.live_of_holds live.reaches live.tidy live.fit steady
    (serving.log.sameView sound hview)

theorem ensures_tell {stop : Host → Prop} {post : Unit → Host → Prop} {reporting : Bool}
    {message : String} (sound : host.Sound) (same : stop host)
    (done : ∀ after : Host, after.Sound → after.view = host.view → stop after ∧ post () after) :
    (tell reporting message).Ensures conduct stop post host := by
  unfold tell
  split
  · exact Script.ensures_report sound same done
  · exact (done host sound rfl).2

/-- The tables of an open store change, or its memtable is written out. -/
theorem Serving.restack {volumes' servedVolumes' : List Volume} {recent' served' tabled' : Nat}
    (h : Serving store root used ops logged recent served tabled volumes servedVolumes bytes
      host)
    (stacked : Stacked host.view (tablesPlace root) volumes' servedVolumes' store'.tables.tables
      after)
    (log : store'.log = store.log) (lockFile : store'.lockFile = store.lockFile)
    (directory : store'.tables.directory = store.tables.directory)
    (tables : ∀ key,
      Merge.newest (volumes'.map (·.entries)) key = told (ops.take tabled') key)
    (newest : ∀ key,
      Merge.newest (servedVolumes'.map (·.entries)) key = told (ops.take served') key)
    (memtable : ∀ key, store'.memtable.find? key = told (ops.drop recent') key)
    (next : ∀ volume ∈ volumes' ++ servedVolumes', volume.id < store'.tables.nextId.toNat)
    (next_le : store'.tables.nextId.toNat ≤ used + 2)
    (le : served ≤ served') (recent_le : recent' ≤ served') (le_tabled : served' ≤ tabled')
    (longer : tabled ≤ tabled')
    (le_length : tabled' ≤ ops.length) :
    Serving store' root (used + 1) ops logged recent' served' tabled' volumes' servedVolumes'
      bytes after := by
  have hsame := stacked.same
  have hlogFile : after.view.file? (logPlace root) = host.view.file? (logPlace root) :=
    hsame.file? _ (not_prefix_tablesPlace (by decide))
  refine {
    log := ⟨stacked.sound, .refl _ _, ?_, ?_, ?_⟩
    holding := h.holding.ofTables hsame stacked.shelves tables longer le_length
    tables := ⟨⟨stacked.sound, .refl _ _, stacked.shelves⟩, stacked.serves⟩
    tablesPath := ?_
    memtable
    newest
    next
    next_le
    logged_le := Nat.le_trans h.logged_le le
    recent_le
    le_tabled
    lock := ?_ }
  · rw [log, hlogFile, h.log.file]
  · exact h.log.clean
  · rw [log, h.log.committed]
  · rw [directory]
    exact hsame.reaches h.tablesPath
  · rw [lockFile]
    exact h.lock.sameOutside hsame

/-! ## Writing out -/

/-- The table as which the memtable of a store will be written out. -/
def nextVolume (store : Portable) : Volume :=
  ⟨store.tables.nextId.toNat, store.memtable.toList⟩

theorem Serving.fresh
    (h : Serving store root used ops logged recent served tabled volumes servedVolumes bytes
      host)
    (fit : Fit ops) : Fresh volumes servedVolumes store.nextVolume where
  small := store.tables.nextId.toNat_lt
  kept volume hmem := h.next volume (List.mem_append_left _ hmem)
  served volume hmem := h.next volume (List.mem_append_right _ hmem)
  wellFormed := by
    refine Log.wellFormed_of_fit (fit.drop recent) ?_
    intro key value? hfind
    rw [← h.memtable, hfind]

/-- With the memtable written out the tables hold the whole history. -/
theorem newest_nextVolume {older : List Volume} {count : Nat}
    (memtable : ∀ key, store.memtable.find? key = told (ops.drop recent) key)
    (newest : ∀ key, Merge.newest (older.map (·.entries)) key = told (ops.take count) key)
    (le : recent ≤ count) (key : Bytes) :
    Merge.newest ((store.nextVolume :: older).map (·.entries)) key =
      told (ops.take ops.length) key := by
  have hsplit : Merge.newest ((store.nextVolume :: older).map (·.entries)) key =
      (store.memtable.find? key).or (Merge.newest (older.map (·.entries)) key) :=
    newest_sourcesWith store (older.map Volume.entries) key
  rw [hsplit, memtable, newest, Log.told_overlap ops le, List.take_length]

theorem Serving.newest_written
    (h : Serving store root used ops logged recent served tabled volumes servedVolumes bytes
      host)
    (key : Bytes) :
    Merge.newest ((store.nextVolume :: volumes).map (·.entries)) key =
      told (ops.take ops.length) key :=
  newest_nextVolume h.memtable h.holding.tables
    (Nat.le_trans h.recent_le h.le_tabled) key

/-- The numbers in use after one more table. -/
theorem Serving.numbers
    (h : Serving store root used ops logged recent served tabled volumes servedVolumes bytes
      host) :
    (∀ volume ∈ volumes, volume.id ≤ used + 1) ∧
      ∀ volume ∈ store.nextVolume :: volumes, volume.id ≤ used + 1 := by
  have hold : ∀ volume ∈ volumes, volume.id ≤ used + 1 :=
    fun volume hmem => Nat.le_succ_of_le (h.id_le volume hmem)
  exact ⟨hold, List.forall_mem_cons.2 ⟨h.next_le, hold⟩⟩

/-- The number after the next one, as long as there are numbers left. -/
theorem Serving.nextId
    (h : Serving store root used ops logged recent served tabled volumes servedVolumes bytes
      host)
    (small : used + 2 < UInt64.size) :
    (∀ volume ∈ store.nextVolume :: volumes ++ store.nextVolume :: servedVolumes,
      volume.id < (store.tables.nextId + 1).toNat) ∧
      (store.tables.nextId + 1).toNat ≤ used + 2 := by
  have hle := h.next_le
  have hsize : UInt64.size = 2 ^ 64 := rfl
  have hnext : (store.tables.nextId + 1).toNat = store.tables.nextId.toNat + 1 := by
    rw [UInt64.toNat_add, UInt64.toNat_one]
    omega
  rw [hnext]
  refine ⟨?_, by omega⟩
  intro volume hmem
  simp only [List.cons_append, List.mem_cons, List.mem_append] at hmem
  have hold := h.next volume
  rw [List.mem_append] at hold
  rcases hmem with rfl | hmem | rfl | hmem
  · exact Nat.lt_succ_self _
  · exact Nat.lt_succ_of_lt (hold (Or.inl hmem))
  · exact Nat.lt_succ_self _
  · exact Nat.lt_succ_of_lt (hold (Or.inr hmem))

/-- What a directory holds while its memtable is written out. -/
theorem Serving.rests_of_keptOr
    (h : Serving store root used ops logged recent served tabled volumes servedVolumes bytes
      host)
    (homed : Homed host.view path root) (tidy : Tidy host.view root) (fit : Fit ops)
    (steady : conduct.Steady → logged = tabled ∨ tabled = ops.length)
    (kept : KeptOr host.view (tablesPlace root) volumes store.nextVolume after) :
    Rests conduct path root (used + 1) ops after := by
  rcases kept with hold | hnew
  · exact .ofTables homed tidy fit h.holding hold h.holding.tables h.numbers.1 (Nat.le_refl _)
      h.holding.le_length steady
  · exact .ofTables homed tidy fit h.holding hnew h.newest_written h.numbers.2
      h.holding.le_length (Nat.le_refl _) fun _ => Or.inr rfl

theorem Serving.held_of_keptOr
    (h : Serving store root used ops logged recent served tabled volumes servedVolumes bytes
      host)
    (homed : Homed host.view path root) (tidy : Tidy host.view root) (fit : Fit ops)
    (steady : conduct.Steady → logged = tabled ∨ tabled = ops.length)
    (kept : KeptOr host.view (tablesPlace root) volumes store.nextVolume after) :
    Held conduct path root (used + 1) ops store.lockFile after :=
  ⟨h.rests_of_keptOr homed tidy fit steady kept,
    kept.elim (fun hold => h.lock.sameOutside hold.same) fun hnew => h.lock.sameOutside hnew.same⟩

/-- The memtable was written out: the tables hold the whole history. -/
theorem Serving.flushed {tables : TableStack}
    (h : Serving store root used ops logged recent served tabled volumes servedVolumes bytes
      host)
    (small : used + 2 < UInt64.size)
    (stacked : Stacked host.view (tablesPlace root) (store.nextVolume :: volumes)
      (store.nextVolume :: servedVolumes) tables.tables after)
    (directory : tables.directory = store.tables.directory)
    (nextId : tables.nextId = store.tables.nextId + 1) :
    Serving { store with tables, memtable := .empty } root (used + 1) ops logged ops.length
      ops.length ops.length (store.nextVolume :: volumes) (store.nextVolume :: servedVolumes)
      bytes after := by
  have hnext := h.nextId small
  rw [← nextId] at hnext
  refine h.restack stacked rfl rfl directory h.newest_written
    (newest_nextVolume h.memtable h.newest h.recent_le) ?_ hnext.1 hnext.2
    (Nat.le_trans h.le_tabled h.holding.le_length) (Nat.le_refl _) (Nat.le_refl _)
    h.holding.le_length (Nat.le_refl _)
  -- The empty memtable says what no operation says.
  intro key
  rw [List.drop_length]
  rfl

/-- The memtable could not be written out: no table was added, but its number is used up. -/
theorem Serving.unwritten {tables : TableStack}
    (h : Serving store root used ops logged recent served tabled volumes servedVolumes bytes
      host)
    (small : used + 2 < UInt64.size)
    (stacked : Stacked host.view (tablesPlace root) volumes servedVolumes tables.tables after)
    (directory : tables.directory = store.tables.directory)
    (nextId : tables.nextId = store.tables.nextId + 1) :
    Serving { store with tables } root (used + 1) ops logged recent served tabled volumes
      servedVolumes bytes after := by
  have hnext := h.nextId small
  rw [← nextId] at hnext
  refine h.restack stacked rfl rfl directory h.holding.tables h.newest h.memtable ?_ hnext.2
    (Nat.le_refl _) h.recent_le h.le_tabled (Nat.le_refl _) h.holding.le_length
  intro volume hmem
  refine hnext.1 volume ?_
  rcases List.mem_append.1 hmem with hkept | hserved
  · exact List.mem_append_left _ (List.mem_cons_of_mem _ hkept)
  · exact List.mem_append_right _ (List.mem_cons_of_mem _ hserved)

/-- The memtable was written out, but could not be opened as a table: it goes on to answer. -/
theorem Serving.unopened {tables : TableStack}
    (h : Serving store root used ops logged recent served tabled volumes servedVolumes bytes
      host)
    (small : used + 2 < UInt64.size)
    (stacked : Stacked host.view (tablesPlace root) (store.nextVolume :: volumes) servedVolumes
      tables.tables after)
    (directory : tables.directory = store.tables.directory)
    (nextId : tables.nextId = store.tables.nextId + 1) :
    Serving { store with tables } root (used + 1) ops logged recent served ops.length
      (store.nextVolume :: volumes) servedVolumes bytes after := by
  have hnext := h.nextId small
  rw [← nextId] at hnext
  refine h.restack stacked rfl rfl directory h.newest_written h.newest h.memtable ?_ hnext.2
    (Nat.le_refl _) h.recent_le (Nat.le_trans h.le_tabled h.holding.le_length)
    h.holding.le_length (Nat.le_refl _)
  intro volume hmem
  refine hnext.1 volume ?_
  rcases List.mem_append.1 hmem with hkept | hserved
  · exact List.mem_append_left _ hkept
  · exact List.mem_append_right _ (List.mem_cons_of_mem _ hserved)

/-- The memtable could not be written out, or not be opened as a table. -/
theorem Serving.unflushed {tables : TableStack}
    (h : Serving store root used ops logged recent served tabled volumes servedVolumes bytes
      host)
    (reaches : host.view.Reaches path root) (tidy : Tidy host.view root) (fit : Fit ops)
    (steady : conduct.Steady → logged = served ∧ served = tabled)
    (small : used + 2 < UInt64.size) (directory : tables.directory = store.tables.directory)
    (nextId : tables.nextId = store.tables.nextId + 1)
    (stacked : Stacked host.view (tablesPlace root) volumes servedVolumes tables.tables after ∨
      ¬ conduct.Steady ∧ Stacked host.view (tablesPlace root) (store.nextVolume :: volumes)
        servedVolumes tables.tables after) :
    Live conduct path root (used + 1) ops { store with tables } after := by
  rcases stacked with hstacked | ⟨unsteady, hstacked⟩
  · exact ⟨hstacked.same.reaches reaches, tidy.sameOutside hstacked.same, fit, logged, recent,
      served, tabled, volumes, servedVolumes, bytes,
      h.unwritten small hstacked directory nextId, steady⟩
  · exact ⟨hstacked.same.reaches reaches, tidy.sameOutside hstacked.same, fit, logged, recent,
      served, ops.length, store.nextVolume :: volumes, servedVolumes, bytes,
      h.unopened small hstacked directory nextId, fun hsteady => absurd hsteady unsteady⟩

/-- The log was emptied when the tables held the whole history. -/
theorem Serving.emptied {log : Log.Appender}
    (h : Serving store root used ops logged recent ops.length ops.length volumes servedVolumes
      bytes host)
    (holds : log.Holds host.view (logPlace root) [] after) :
    Serving { store with log } root used ops ops.length recent ops.length ops.length volumes
      servedVolumes [] after := by
  refine h.relog holds (List.prefix_refl _) ?_ (Nat.le_refl _) h.memtable rfl rfl
  rw [List.drop_length, Log.operations_nil]

theorem Serving.live_emptied {log : Log.Appender}
    (h : Serving store root used ops logged recent ops.length ops.length volumes servedVolumes
      bytes host)
    (reaches : host.view.Reaches path root) (tidy : Tidy host.view root) (fit : Fit ops)
    (holds : log.Holds host.view (logPlace root) [] after) :
    Live conduct path root used ops { store with log } after :=
  ⟨holds.same.reaches reaches, tidy.sameBut holds.same (by decide) (by decide), fit, ops.length,
    recent, ops.length, ops.length, volumes, servedVolumes, [], h.emptied holds,
    fun _ => ⟨rfl, rfl⟩⟩

/-- The log is emptied when the tables hold the whole history. -/
theorem Serving.ensures_truncate
    (h : Serving store root used ops logged recent ops.length ops.length volumes servedVolumes
      bytes host)
    (reaches : host.view.Reaches path root) (tidy : Tidy host.view root) (fit : Fit ops)
    (numbers : ∀ volume ∈ volumes, volume.id ≤ used) :
    store.log.truncate.Ensures conduct (Held conduct path root used ops store.lockFile)
      (fun result after => Live conduct path root used ops { store with log := result.2 } after ∧
        (result.1 = .ok () ∧ after.view.bytesAt (logPlace root) = [] ∨
          conduct.Excuse ∧ ∃ e, result.1 = .error e)) host := by
  have hlog := h.operations_eq
  have homed := Homed.of_reaches reaches
  refine (Log.Appender.ensures_truncate h.log).mono ?_ ?_
  · -- Before and after the log is emptied the tables hold all of it.
    rintro after (hshows | hshows)
    · rw [hlog] at hshows
      exact ⟨.ofLog homed tidy fit h.holding numbers hshows (List.prefix_refl _) h.holding.le
        fun _ => Or.inr rfl, h.lock.sameBut hshows.same⟩
    · rw [← List.drop_length (l := ops)] at hshows
      exact ⟨.ofLog homed tidy fit h.holding numbers hshows (List.prefix_refl _) (Nat.le_refl _)
        fun _ => Or.inr rfl, h.lock.sameBut hshows.same⟩
  · rintro result after (⟨log, rfl, _, hholds⟩ | ⟨unsteady, e, rfl, hholds⟩)
    · exact ⟨h.live_emptied reaches tidy fit hholds,
        Or.inl ⟨rfl, View.bytesAt_of_file? hholds.file⟩⟩
    · exact ⟨h.live_of_holds reaches tidy fit (fun hsteady => absurd hsteady unsteady) hholds,
        Or.inr ⟨Conduct.excuse_of_not_steady unsteady, e, rfl⟩⟩

theorem ensures_writeOut (live : Live conduct path root used ops store host)
    (small : used + 2 < UInt64.size) :
    store.writeOut.Ensures conduct (Rests conduct path root (used + 1) ops)
      (fun result after => Live conduct path root (used + 1) ops result.2 after ∧
        result.2.lockFile = store.lockFile ∧
        (result.1 = .ok () ∨ conduct.Excuse ∧ ∃ e, result.1 = .error e)) host := by
  unfold writeOut
  by_cases hempty : store.memtable.isEmpty = true
  · simp only [hempty, if_true]
    exact ⟨live.mono (Nat.le_succ _), rfl, Or.inl rfl⟩
  have hnonempty : store.memtable.isEmpty = false := by simpa using hempty
  obtain ⟨logged, recent, served, tabled, volumes, servedVolumes, bytes, serving, steady⟩ :=
    live.parts
  simp only [hnonempty]
  refine Script.Ensures.bind_of ((TableStack.ensures_flush serving.tables serving.tablesPath
    (serving.fresh live.fit) rfl rfl hnonempty).mono ?_ fun _ _ h => h) ?_
  · intro after kept
    exact serving.rests_of_keptOr live.homed live.tidy live.fit
      (fun hsteady => Or.inl ((steady hsteady).1.trans (steady hsteady).2)) kept
  rintro ⟨result, tables⟩ flushed ⟨hdirectory, hid, hresult⟩
  simp only at hdirectory hid hresult
  rcases hresult with ⟨summary, rfl, hstacked⟩ | ⟨excuse, ⟨e, rfl⟩, hstacked⟩
  · -- The tables hold the whole history from here on.
    refine Script.Ensures.bind_of (((serving.flushed small hstacked hdirectory
      hid).ensures_truncate (hstacked.same.reaches live.reaches)
      (live.tidy.sameOutside hstacked.same) live.fit serving.numbers.2).mono
      (fun _ h => h.toRests) fun _ _ h => h) ?_
    rintro ⟨result, log⟩ truncated ⟨hlive, hresult⟩
    simp only at hlive hresult
    rcases hresult with ⟨rfl, _⟩ | ⟨excuse, e, rfl⟩
    · refine Script.Ensures.bind (ensures_tell hlive.sound hlive.rests ?_)
      intro after hsound hview
      have hafter := hlive.sameView hsound hview
      exact ⟨hafter.rests, hafter, rfl, Or.inl rfl⟩
    · exact ⟨hlive, rfl, Or.inr ⟨excuse, e, rfl⟩⟩
  · exact ⟨serving.unflushed live.reaches live.tidy live.fit steady small hdirectory hid hstacked,
      rfl, Or.inr ⟨excuse, e, rfl⟩⟩

theorem ensures_writeOutIfFull (live : Live conduct path root used ops store host)
    (small : used + 2 < UInt64.size) :
    store.writeOutIfFull.Ensures conduct (Rests conduct path root (used + 1) ops)
      (fun store after => Live conduct path root (used + 1) ops store after) host := by
  unfold writeOutIfFull
  split
  · exact live.mono (Nat.le_succ _)
  refine Script.Ensures.bind_of (ensures_writeOut live small) ?_
  rintro ⟨result, store⟩ after ⟨hlive, _⟩
  simp only at hlive
  cases result with
  | ok value => exact hlive
  | error e =>
    refine Script.Ensures.bind (ensures_tell hlive.sound hlive.rests ?_)
    intro later hsound hview
    have hlater := hlive.sameView hsound hview
    exact ⟨hlater.rests, hlater⟩

/-! ## Logging -/

/-- What a directory holds while an operation is logged: the history from before, or the one with
the operation. -/
def RestsOr (conduct : Conduct) (path : Path) (root : Location) (used : Nat)
    (ops : List Operation) (operation : Operation) (host : Host) : Prop :=
  Rests conduct path root used ops host ∨
    Loggable operation ∧ Rests conduct path root used (ops ++ [operation]) host

/-- An operation that was logged and taken into the memtable. -/
theorem Serving.commit {log : Log.Appender}
    (h : Serving store root used ops logged recent served tabled volumes servedVolumes bytes
      host)
    (holds : log.Holds host.view (logPlace root) bytes' after)
    (hops : operations bytes' = operations bytes ++ [operation]) :
    Serving { store with log, memtable := store.memtable.applyAll operation.mutations } root used
      (ops ++ [operation]) logged recent served tabled volumes servedVolumes bytes' after := by
  have hlog := h.operations_eq
  have hle : served ≤ ops.length := Nat.le_trans h.le_tabled h.holding.le_length
  have hrecent := Nat.le_trans h.recent_le hle
  refine h.relog holds (List.prefix_append _ _) ?_ h.logged_le ?_ rfl rfl
  · rw [hops, hlog, List.drop_append_of_le_length (Nat.le_trans h.logged_le hle)]
  · intro key
    have htold : (Memtable.empty.applyAll operation.mutations).find? key =
        told [operation] key := by
      rw [told, List.flatMap_singleton]
    rw [List.drop_append_of_le_length hrecent, Log.told_append, ← h.memtable, ← htold]
    exact Memtable.find?_applyAll ..

theorem Serving.live_commit {log : Log.Appender}
    (h : Serving store root used ops logged recent served tabled volumes servedVolumes bytes
      host)
    (reaches : host.view.Reaches path root) (tidy : Tidy host.view root) (fit : Fit ops)
    (steady : conduct.Steady → logged = served ∧ served = tabled) (loggable : Loggable operation)
    (holds : log.Holds host.view (logPlace root) bytes' after)
    (hops : operations bytes' = operations bytes ++ [operation]) :
    Live conduct path root used (ops ++ [operation])
      { store with log, memtable := store.memtable.applyAll operation.mutations } after :=
  ⟨holds.same.reaches reaches, tidy.sameBut holds.same (by decide) (by decide),
    fit.append loggable, logged, recent, served, tabled, volumes, servedVolumes, bytes',
    h.commit holds hops, steady⟩

/-- An operation that fits a frame is logged; one that does not is refused. -/
theorem ensures_commit (live : Live conduct path root used ops store host)
    (small : used + 2 < UInt64.size) (nonempty : operation.mutations ≠ []) :
    (store.commit operation).Ensures conduct (RestsOr conduct path root (used + 1) ops operation)
      (fun result after =>
        (result.1 = .ok () ∧ Loggable operation ∧
          Live conduct path root (used + 1) (ops ++ [operation]) result.2 after) ∨
        ((conduct.Excuse ∨ Log.Frame.payloadLimit < Log.Payload.length operation) ∧
          (∃ e, result.1 = .error e) ∧
          Live conduct path root (used + 1) ops result.2 after)) host := by
  obtain ⟨logged, recent, served, tabled, volumes, servedVolumes, bytes, serving, steady⟩ :=
    live.parts
  have hlog := serving.operations_eq
  have hle : logged ≤ ops.length := Nat.le_trans serving.holding.le serving.holding.le_length
  unfold commit
  refine Script.Ensures.bind_of ((Log.Appender.ensures_append serving.log).mono ?_
    fun _ _ h => h) ?_
  · -- Wherever the process dies, the frame of the operation is there whole or not at all.
    rintro after (hshows | ⟨hfits, hshows⟩)
    · rw [hlog] at hshows
      refine Or.inl (.ofLog live.homed live.tidy live.fit serving.holding serving.numbers.1 hshows
        (List.prefix_refl _) serving.holding.le fun hsteady => Or.inl ?_)
      exact (steady hsteady).1.trans (steady hsteady).2
    · rw [hlog, ← List.drop_append_of_le_length hle] at hshows
      refine Or.inr ⟨⟨hfits, nonempty⟩, .ofLog live.homed live.tidy
        (live.fit.append ⟨hfits, nonempty⟩) serving.holding serving.numbers.1 hshows
        (List.prefix_append _ _) serving.holding.le fun hsteady => Or.inl ?_⟩
      exact (steady hsteady).1.trans (steady hsteady).2
  rintro ⟨result, log⟩ after
    (⟨log', now, heq, hfits, _, hholds⟩ | ⟨cause, e, heq, hholds⟩)
  · -- The operation is in the log: it counts from here on, whatever becomes of the memtable.
    cases heq
    have hops := Log.operations_of_records
      (Log.records_frame ⟨store.log.nextLsn, operation, now⟩ serving.log.clean hfits)
    have hlive := serving.live_commit live.reaches live.tidy live.fit steady ⟨hfits, nonempty⟩
      hholds hops
    refine Script.Ensures.bind_of ((ensures_writeOutIfFull hlive small).mono ?_ fun _ _ h => h) ?_
    · intro stopped hrests
      exact Or.inr ⟨⟨hfits, nonempty⟩, hrests⟩
    · intro store last hlast
      exact Or.inl ⟨rfl, ⟨hfits, nonempty⟩, hlast⟩
  · cases heq
    refine Or.inr ⟨cause, ⟨e, rfl⟩, Live.mono ?_ (Nat.le_succ _)⟩
    exact serving.live_of_holds live.reaches live.tidy live.fit steady hholds

/-- What a user changes at once. -/
inductive Change where
  | put (key value : Bytes)
  | delete (key : Bytes)
  | write (batch : WriteBatch)

namespace Change

/-- The mutations of a change in order. -/
def mutations : Change → List Mutation
  | put key value => [.put key value]
  | delete key => [.delete key]
  | write batch => batch.toList

/-- What a change logs; a batch without mutations leaves no trace. -/
def operations : Change → List Operation
  | put key value => [.one (.put key value)]
  | delete key => [.one (.delete key)]
  | write batch => if batch.isEmpty then [] else [.batch batch.toList]

/-- A change fits a frame of the log. -/
def Fits (change : Change) : Prop :=
  ∀ operation ∈ change.operations, Log.Payload.length operation ≤ Log.Frame.payloadLimit

instance (change : Change) : Decidable change.Fits :=
  inferInstanceAs (Decidable (∀ operation ∈ change.operations, _))

/-- What is logged changes something. -/
theorem nonempty (change : Change) :
    ∀ operation ∈ change.operations, operation.mutations ≠ [] := by
  cases change with
  | put key value => simp [operations, Log.Operation.mutations]
  | delete key => simp [operations, Log.Operation.mutations]
  | write batch =>
    intro operation hmem
    simp only [operations] at hmem
    split at hmem
    · cases hmem
    · rename_i hempty
      rw [List.mem_singleton.1 hmem]
      exact fun hnil => hempty (batch.isEmpty_iff.2 hnil)

theorem flatMap_operations (change : Change) :
    change.operations.flatMap (·.mutations) = change.mutations := by
  cases change with
  | put key value => rfl
  | delete key => rfl
  | write batch =>
    simp only [operations, mutations]
    split
    · rename_i hempty
      exact (batch.isEmpty_iff.1 hempty).symm
    · exact List.flatMap_singleton ..

theorem after_append_operations (change : Change) (ops : List Operation) :
    Plain.after (ops ++ change.operations) =
      change.mutations.foldl Plain.change (Plain.after ops) := by
  rw [Plain.after, List.foldl_append, Plain.foldl_apply change.operations,
    change.flatMap_operations]
  rfl

end Change

/-- Makes a change. -/
def change (store : Portable) : Change → Script (Except Error Unit × Portable)
  | .put key value => store.put key value
  | .delete key => store.delete key
  | .write batch => store.write batch

/-- A change commits the operation that it logs. Only an empty batch logs nothing, and it leaves the
store as it is. -/
theorem Change.commits (change : Change) :
    (∃ operation, change.operations = [operation] ∧
      ∀ store : Portable, store.change change = store.commit operation) ∨
    change.operations = [] ∧
      ∀ store : Portable, store.change change = Script.done (.ok (), store) := by
  cases change with
  | put key value => exact Or.inl ⟨_, rfl, fun _ => rfl⟩
  | delete key => exact Or.inl ⟨_, rfl, fun _ => rfl⟩
  | write batch =>
    by_cases hempty : batch.isEmpty = true
    · exact Or.inr ⟨if_pos hempty, fun _ => if_pos hempty⟩
    · exact Or.inl ⟨_, if_neg hempty, fun _ => if_neg hempty⟩

/-- What a directory holds while a change is made: the history from before, or the one with the
change. -/
def RestsWith (conduct : Conduct) (path : Path) (root : Location) (used : Nat)
    (ops : List Operation) (change : Change) (host : Host) : Prop :=
  Rests conduct path root used ops host ∨
    Rests conduct path root used (ops ++ change.operations) host

/-- A change that fits a frame is made whole; one that does not is refused. -/
theorem ensures_change (live : Live conduct path root used ops store host)
    (small : used + 2 < UInt64.size) (change : Change) :
    (store.change change).Ensures conduct (RestsWith conduct path root (used + 1) ops change)
      (fun result after =>
        (result.1 = .ok () ∧ change.Fits ∧
          Live conduct path root (used + 1) (ops ++ change.operations) result.2 after) ∨
        ((conduct.Excuse ∨ ¬ change.Fits) ∧ (∃ e, result.1 = .error e) ∧
          Live conduct path root (used + 1) ops result.2 after)) host := by
  rcases change.commits with ⟨operation, hops, h⟩ | ⟨hnone, h⟩ <;> rw [h store]
  · have hfits : change.Fits ↔ Log.Payload.length operation ≤ Log.Frame.payloadLimit := by
      simp [Change.Fits, hops]
    have hmutations : operation.mutations ≠ [] :=
      change.nonempty operation (hops ▸ List.mem_singleton_self operation)
    rw [hfits, hops, Nat.not_le]
    refine (ensures_commit live small hmutations).mono ?_ ?_
    · intro after hrests
      unfold RestsWith
      rw [hops]
      exact hrests.imp_right And.right
    · intro result after hresult
      exact hresult.imp_left fun ⟨hok, hloggable, hlive⟩ => ⟨hok, hloggable.length, hlive⟩
  · rw [hnone, List.append_nil]
    refine Or.inl ⟨rfl, ?_, live.mono (Nat.le_succ _)⟩
    simp [Change.Fits, hnone]

/-! ## Reading and closing -/

/-- A point read gives what the history left. -/
theorem Live.ensures_get {conduct' : Conduct} {stop : Host → Prop}
    (live : Live conduct path root used ops store host) (key : Bytes) (same : stop host) :
    (store.get key).Ensures conduct' stop
      (fun found after => found = Plain.after ops key ∧ after = host) (fun _ _ => False) host := by
  obtain ⟨logged, recent, served, tabled, volumes, servedVolumes, bytes, serving, _⟩ := live.parts
  refine (Portable.ensures_get live.sound serving.tables.serves.opened key same).mono
    (fun _ h => h) ?_ fun _ _ h => h
  rintro found _ ⟨rfl, rfl⟩
  rw [serving.newest_eq, Log.after_eq_told]
  exact ⟨rfl, rfl⟩

theorem Live.perform_get (live : Live conduct path root used ops store host) (key : Bytes) :
    (store.get key).perform host = (.ok (Plain.after ops key), host) :=
  Action.perform_of_ensures (live.ensures_get key trivial)

/-- The lock of a directory is given up. -/
theorem Rests.ensures_unlock {lockFile : Handle} {post : Unit → Host → Prop}
    (rests : Rests conduct path root used ops host) (locks : Locks lockFile host.view root)
    (done : ∀ after, Rests conduct path root used ops after → Unlocked after.view root →
      (host.view.Reaches path root → after.view.Reaches path root) → post () after) :
    (Script.call (.unlock lockFile)).Ensures conduct (Rests conduct path root used ops) post
      host := by
  obtain ⟨lockBytes, hlock⟩ := locks
  refine Script.ensures_unlock rests.sound rests ?_
  intro after hsound hview
  have hrests := rests.relock hsound hview
  refine ⟨hrests, done after hrests ?_ ?_⟩
  swap
  · -- Locks do not matter to paths.
    intro hreaches
    rw [hview]
    exact hreaches.mono rfl fun _ hdir => hdir
  intro id bytes hfile
  rw [hview] at hfile ⊢
  have heq : some (id, bytes) = some (lockFile.id, lockBytes) := hfile.symm.trans hlock
  simp only [Option.some.injEq, Prod.mk.injEq] at heq
  simp [View.withLocked, heq.1]

theorem Live.ensures_abandon {post : Unit → Host → Prop}
    (live : Live conduct path root used ops store' host)
    (lockFile : store'.lockFile = store.lockFile)
    (done : ∀ after, Rests conduct path root used ops after → Unlocked after.view root →
      after.view.Reaches path root → post () after) :
    store.abandon.Ensures conduct (Rests conduct path root used ops) post host := by
  obtain ⟨_, _, _, _, _, _, _, serving, _⟩ := live.parts
  exact live.rests.ensures_unlock (lockFile ▸ serving.lock) fun after hrests hunlocked hkept =>
    done after hrests hunlocked (hkept live.reaches)

/-- A store is closed: the directory holds the history, and its lock is free. -/
theorem ensures_close (live : Live conduct path root used ops store host)
    (small : used + 2 < UInt64.size) :
    store.close.Ensures conduct (Rests conduct path root (used + 1) ops)
      (fun result after => Rests conduct path root (used + 1) ops after ∧
        Unlocked after.view root ∧ after.view.Reaches path root ∧
        (result = .ok () ∨ conduct.Excuse ∧ ∃ e, result = .error e)) host := by
  unfold close
  refine Script.Ensures.bind_of (ensures_writeOut live small) ?_
  rintro ⟨result, written⟩ after ⟨hlive, hlock, hresult⟩
  simp only at hlive hlock hresult
  rcases hresult with rfl | ⟨excuse, e, rfl⟩
  · obtain ⟨logged, recent, served, tabled, volumes, servedVolumes, bytes, serving, steady⟩ :=
      hlive.parts
    refine Script.Ensures.bind_of ((Log.Appender.ensures_sync serving.log).mono ?_
      fun _ _ h => h) ?_
    · intro stopped hshows
      rw [serving.operations_eq] at hshows
      refine .ofLog hlive.homed hlive.tidy hlive.fit serving.holding serving.id_le hshows
        (List.prefix_refl _) serving.holding.le fun hsteady => Or.inl ?_
      exact (steady hsteady).1.trans (steady hsteady).2
    rintro ⟨result, log⟩ synced ⟨log', heq, _, hholds⟩
    cases heq
    have hsynced : Live conduct path root (used + 1) ops { written with log } synced :=
      serving.live_of_holds hlive.reaches hlive.tidy hlive.fit steady hholds
    refine Script.Ensures.bind (ensures_tell hsynced.sound hsynced.rests ?_)
    intro told hsound hview
    have htold := hsynced.sameView hsound hview
    refine ⟨htold.rests, Script.Ensures.bind (htold.ensures_abandon rfl ?_)⟩
    intro last hrests hunlocked hreaches
    exact ⟨hrests, hunlocked, hreaches, Or.inl rfl⟩
  · -- The log is not forced to disk then, but the lock is given up all the same.
    refine Script.Ensures.bind (hlive.ensures_abandon hlock ?_)
    intro last hrests hunlocked hreaches
    exact ⟨hrests, hunlocked, hreaches, Or.inr ⟨excuse, e, rfl⟩⟩

end OrderedStore.Portable
