import OrderedStore.Proofs.Portable.Writing

/-!
# Opening a store

The directory is made if it is missing, and locked. What the log holds is replayed and written out
as a table, and the log is emptied. Wherever this ends, the directory holds the history from before.

Main statement: `Portable.ensures_start`.
-/

namespace OrderedStore.Portable

open Log (Operation told Fit operations Loggable)
open TableStack (Volume Shelves Serves Stacked Kept KeptOr Fresh)

variable {conduct : Conduct} {host after : Host} {config : Config} {path : Path}
  {root : Location} {used : Nat} {ops : List Operation} {lockFile : Handle}

/-! ## The directory -/

/-- A path leads to a directory. -/
def Ready (host : Host) (path : Path) : Prop :=
  host.disk.kind? path = some .directory

instance (host : Host) (path : Path) : Decidable (Ready host path) :=
  inferInstanceAs (Decidable (_ = _))

theorem Homed.reaches (homed : Homed host.view path root) (ready : Ready host path) :
    host.view.Reaches path root := by
  have hreaches := Disk.reaches_of_kind? ready
  rwa [homed.ending] at hreaches

/-- Directories that are made for the path of a store are not made below its root. -/
theorem Homed.directory_eq (homed : Homed host.view path root)
    (grown : host.view.Grown after.view (Action.MadeFor host.view path)) {place : Location}
    (hbelow : ∃ name rest, place = root ++ name :: rest) :
    after.view.directory place = host.view.directory place := by
  rw [Bool.eq_iff_iff]
  refine ⟨fun hdir => ?_, grown.kept place⟩
  rcases grown.new place hdir with hold | hnew
  · exact hold
  · rcases homed.leads with hreaches | hup
    · exact Action.directory_of_madeFor hreaches hnew
    · obtain ⟨name, rest, rfl⟩ := hbelow
      have hinitial := Action.prefix_of_madeFor hup hnew
      rw [homed.ending] at hinitial
      have hlength := hinitial.length_le
      rw [List.length_append, List.length_cons] at hlength
      omega

/-- The directory of a store may be made. -/
theorem Rests.grow (h : Rests conduct path root used ops host) (sound : after.Sound)
    (grown : host.view.Grown after.view (Action.MadeFor host.view path)) :
    Rests conduct path root used ops after := by
  obtain ⟨logged, tabled, volumes, holding, numbers, steady⟩ := h.parts
  have hdir : ∀ name rest, after.view.directory (root ++ name :: rest) =
      host.view.directory (root ++ name :: rest) :=
    fun name rest => h.homed.directory_eq grown ⟨name, rest, rfl⟩
  have hfile : ∀ place, after.view.file? place = host.view.file? place :=
    fun place => congrFun grown.file? place
  refine ⟨sound, h.homed.mono grown.base grown.kept, ?_, h.fit, logged, tabled, volumes, ?_,
    numbers, steady⟩
  · refine ⟨?_, ?_, ?_, ?_⟩
    · rw [← h.tidy.marker, View.kind?, View.kind?, hfile, hdir]
    · rw [← h.tidy.lock]
      exact hdir _ _
    · rw [← h.tidy.log]
      exact hdir _ _
    · rw [hfile, h.tidy.tables]
  · refine ⟨?_, ?_, holding.tables, holding.le, holding.le_length⟩
    · rw [← holding.log, View.bytesAt, View.bytesAt, hfile]
    · refine holding.shelves.congr (fun name => hfile _) fun name => ?_
      have hbelow := hdir tablesName [name]
      simpa [tablesPlace] using hbelow

/-- The directory is made if it is missing. -/
theorem ensures_prepareDirectory (rests : Rests conduct config.path root used ops host)
    (unlocked : Unlocked host.view root) :
    (prepareDirectory config).Ensures conduct (Rests conduct config.path root used ops)
      (fun _ after => Rests conduct config.path root used ops after ∧ Unlocked after.view root ∧
        (Ready host config.path → after = host))
      (fun _ after => ¬ Ready host config.path ∧ Rests conduct config.path root used ops after ∧
        Unlocked after.view root) host := by
  -- Whatever is made, the rest of the work is the same.
  have hmarker : ∀ after, Rests conduct config.path root used ops after →
      Unlocked after.view root → (Ready host config.path → after = host) →
      (do
        if (← Action.probe (config.path.child nativeMarker)).isSome then
          throw (.storage (.nativeData config.path.text)) : Action Unit).Ensures conduct
        (Rests conduct config.path root used ops)
        (fun _ last => Rests conduct config.path root used ops last ∧ Unlocked last.view root ∧
          (Ready host config.path → last = host))
        (fun _ last => ¬ Ready host config.path ∧ Rests conduct config.path root used ops last ∧
          Unlocked last.view root) after := by
    intro after hrests hunlocked hsame
    refine Action.Ensures.bind (Action.ensures_probe hrests ?_)
    by_cases hready : Ready host config.path
    · have hreaches := rests.homed.reaches hready
      rw [← hsame hready] at hreaches
      have hnone : after.disk.kind? (config.path.child nativeMarker) = none := by
        have hnames := hreaches.names (show PlainName nativeMarker by decide)
        rcases Action.kind?_of_names hnames with ⟨_, hlong⟩ | ⟨_, hshort⟩
        · exact hlong
        · rw [hshort, hrests.tidy.marker]
      rw [hnone]
      exact ⟨hrests, hunlocked, hsame⟩
    · -- What is found beside a path that leads elsewhere does not matter.
      split
      · exact ⟨hready, hrests, hunlocked⟩
      · exact ⟨hrests, hunlocked, hsame⟩
  unfold prepareDirectory
  refine Action.Ensures.bind (Action.ensures_probe rests ?_)
  cases hkind : host.disk.kind? config.path with
  | none =>
    have hready : ¬ Ready host config.path := by simp [Ready, hkind]
    simp only
    split
    · refine Action.Ensures.bind (Action.ensures_makeDirectories rests.sound ?_)
      intro after hsound hgrown
      have hrests := rests.grow hsound hgrown
      have hunlocked : Unlocked after.view root := by
        intro id bytes hfile
        rw [hgrown.file?] at hfile
        rw [hgrown.locked]
        exact unlocked id bytes hfile
      exact ⟨hrests, hmarker after hrests hunlocked fun h => absurd h hready,
        fun _ => ⟨hready, hrests, hunlocked⟩⟩
    · exact ⟨hready, rests, unlocked⟩
  | some kind =>
    cases kind with
    | file =>
      refine ⟨?_, rests, unlocked⟩
      simp [Ready, hkind]
    | directory => exact hmarker host rests unlocked fun _ => rfl

/-! ## The lock -/

theorem Rests.sameLock {bytes : Option (Nat × Bytes)}
    (h : Rests conduct path root used ops host) (sound : after.Sound)
    (hview : after.view = host.view.put (lockPlace root) bytes) :
    Rests conduct path root used ops after := by
  obtain ⟨logged, tabled, volumes, holding, numbers, steady⟩ := h.parts
  have hsame : host.view.SameBut after.view (lockPlace root) := .of_eq_put hview
  exact ⟨sound, h.homed.sameBut hsame, h.tidy.sameBut hsame (by decide) (by decide), h.fit,
    logged, tabled, volumes, holding.sameBut hsame (by decide) (by decide), numbers, steady⟩

/-- A lock that nobody has is taken. -/
theorem ensures_takeLock {lockPath : Path} (rests : Rests conduct path root used ops host)
    (reaches : host.view.Reaches path root) (locks : Locks lockFile host.view root)
    (free : lockFile.id ∉ host.view.locked) :
    Action.Ensures conduct (Rests conduct path root used ops)
      (ExceptT.mk do
        match ← Script.call (.lock lockFile) with
        | .ok () => return .ok lockFile
        | .error .wouldBlock => return .error (.io (.locked lockPath.text))
        | .error fault => return .error (.io (.system fault)) : Action Handle)
      (fun lockFile after => Rests conduct path root used ops after ∧
        Locks lockFile after.view root ∧ after.view.Reaches path root)
      (fun _ _ => False) host := by
  obtain ⟨bytes, hlock⟩ := locks
  refine Script.Ensures.bind (Script.ensures_lock rests.sound hlock rests
    (fun htaken => absurd htaken free) ?_)
  intro _ after hsound hview
  have hrests := rests.relock hsound hview
  refine ⟨hrests, hrests, ⟨bytes, ?_⟩, ?_⟩
  · rw [hview]
    exact hlock
  · rw [hview]
    exact reaches.mono rfl fun _ hdir => hdir

/-- The lock file of a directory is opened, unless the directory or room for its path is missing. -/
theorem ensures_openLock (rests : Rests conduct path root used ops host)
    (unlocked : Unlocked host.view root) :
    (Action.openFile (path.child lockName) .keep).Ensures conduct
      (Rests conduct path root used ops)
      (fun lockFile after => Rests conduct path root used ops after ∧ Unlocked after.view root ∧
        Locks lockFile after.view root ∧ after.view.Reaches path root)
      (fun _ after => (conduct.Excuse ∨ ¬ Ready host path) ∧
        Rests conduct path root used ops after ∧ Unlocked after.view root) host := by
  by_cases hreaches : host.view.Reaches path root
  · refine Action.ensures_openFile_keep rests.sound
      (hreaches.names (show PlainName lockName by decide)) rests.tidy.lock rests
      (fun excuse _ => ⟨Or.inl excuse, rests, unlocked⟩) ?_ ?_
    · exact fun id bytes _ hfile => ⟨rests, unlocked, ⟨bytes, hfile⟩, hreaches⟩
    · intro id after _ _ hunused hsound hview
      have hrests := rests.sameLock hsound hview
      have hfile : after.view.file? (lockPlace root) = some (id, []) := View.file?_of_eq_put hview
      refine ⟨hrests, hrests, ?_, ⟨[], hfile⟩, ?_⟩
      · -- Nobody holds the lock of a file that was just made.
        intro other bytes hother
        rw [hfile] at hother
        cases hother
        rw [hview]
        exact hunused.1
      · rw [hview]
        exact hreaches.put _ _
  · -- No path leads to another directory than that at the root.
    have hlost : ∀ place, ¬ host.view.Reaches path place := by
      intro place hplace
      refine hreaches ?_
      have heq := hplace.eq_ending
      rw [rests.homed.ending] at heq
      rwa [← heq]
    refine Action.ensures_openFile_lost (Or.inl rfl) hlost rests fun _ => ?_
    exact ⟨Or.inr fun hready => hreaches (rests.homed.reaches hready), rests, unlocked⟩

/-- The lock of a directory is taken, unless the directory or room for its path is missing. -/
theorem ensures_acquire (rests : Rests conduct path root used ops host)
    (unlocked : Unlocked host.view root) :
    (acquire path).Ensures conduct (Rests conduct path root used ops)
      (fun lockFile after => Rests conduct path root used ops after ∧
        Locks lockFile after.view root ∧ after.view.Reaches path root)
      (fun _ after => (conduct.Excuse ∨ ¬ Ready host path) ∧
        Rests conduct path root used ops after ∧ Unlocked after.view root) host := by
  unfold acquire
  refine Action.Ensures.bind_of (ensures_openLock rests unlocked) ?_ fun _ _ h => h
  rintro lockFile opened ⟨hrests, hunlocked, hlocks, hreaches⟩
  obtain ⟨bytes, hfile⟩ := id hlocks
  exact (ensures_takeLock hrests hreaches hlocks (hunlocked _ bytes hfile)).mono
    (fun _ h => h) (fun _ _ h => h) fun _ _ h => h.elim

/-! ## Log and tables -/

/-- The log is replayed, unless its path is too long; the appender refuses that path later on. -/
theorem ensures_replay {target : Location} {reporting : Bool} (sound : host.Sound)
    (names : host.view.Names path target) (clear : host.view.directory target = false) :
    (replay path reporting).Ensures conduct
      (Log.Shows host.view target (operations (host.view.bytesAt target)))
      (fun memtable after =>
        Log.Shows host.view target (operations (host.view.bytesAt target)) after ∧
        (¬ path.Overlong → Log.leftover (after.view.bytesAt target) = [] ∧
          ∀ key, memtable.find? key = told (operations (host.view.bytesAt target)) key))
      (fun _ after => conduct.Excuse ∧
        Log.Shows host.view target (operations (host.view.bytesAt target)) after) host := by
  have hshows : Log.Shows host.view target (operations (host.view.bytesAt target)) host :=
    ⟨sound, .refl _ _, rfl⟩
  unfold replay
  refine Action.Ensures.bind (Action.ensures_probe_entry names hshows ?_ fun _ => ?_)
  · intro hlong
    exact Action.ensures_pure ⟨hshows, fun hshort => absurd hlong hshort⟩
  cases hfile : host.view.file? target with
  | none =>
    have hbytes : host.view.bytesAt target = [] := by
      simp [View.bytesAt, hfile]
    simp only [View.kind?, hfile, clear]
    refine Action.ensures_pure ⟨hshows, fun _ => ?_⟩
    rw [hbytes, Log.operations_nil]
    exact ⟨Log.leftover_nil, fun _ => rfl⟩
  | some file =>
    obtain ⟨id, bytes⟩ := file
    have hbytes := View.bytesAt_of_file? hfile
    rw [hbytes]
    simp only [View.kind?, hfile]
    refine Action.Ensures.bind_of (Log.Recovery.ensures_recover sound names hfile) ?_
      fun _ _ h => h
    rintro ⟨records, recovery⟩ after ⟨hrecords, hafter, hclean, _⟩
    simp only at hrecords
    subst hrecords
    have hmemtable : ∀ key,
        (Memtable.empty.applyAll
          ((Log.records bytes).flatMap (·.operation.mutations))).find? key =
          told (operations bytes) key := by
      intro key
      rw [told, operations, List.flatMap_map]
    simp only
    split
    · refine Action.Ensures.bind (Action.ensures_ofScript (ensures_tell hafter.sound hafter ?_))
      intro last hsound hview
      have hlast : Log.Shows host.view target (operations bytes) last := by
        refine ⟨hsound, ?_, ?_⟩
        · rw [hview]
          exact hafter.same
        · rw [hview]
          exact hafter.shown
      rw [← hview] at hclean
      exact ⟨hlast, Action.ensures_pure ⟨hlast, fun _ => ⟨hclean, hmemtable⟩⟩⟩
    · exact Action.ensures_pure ⟨hafter, fun _ => ⟨hclean, hmemtable⟩⟩

/-- A log is replayed and opened for appending. -/
theorem ensures_openLog {target : Location} {reporting : Bool} {policy : SyncPolicy} {α : Type}
    {stop : Host → Prop} {ok : α → Host → Prop} {err : Error → Host → Prop}
    {rest : Memtable → Log.Appender → Action α} (sound : host.Sound)
    (names : host.view.Names path target) (clear : host.view.directory target = false)
    (shown : operations (host.view.bytesAt target) = ops)
    (same : ∀ after, Log.Shows host.view target ops after → stop after)
    (failed : conduct.Excuse → ∀ e after, Log.Shows host.view target ops after → err e after)
    (done : ∀ (memtable : Memtable) (log : Log.Appender) (bytes : Bytes) (after : Host),
      (∀ key, memtable.find? key = told ops key) → log.Holds host.view target bytes after →
      operations bytes = ops → (rest memtable log).Ensures conduct stop ok err after) :
    (do
      let memtable ← replay path reporting
      let log ← Log.Appender.start path policy
      rest memtable log).Ensures conduct stop ok err host := by
  subst shown
  refine Action.Ensures.bind_of ((ensures_replay sound names clear).mono same (fun _ _ h => h)
    fun _ _ h => h) ?_ fun e after h => failed h.1 e after h.2
  rintro memtable replayed ⟨shows, hmemtable⟩
  -- What is shown after the replay was shown before it.
  have hback : ∀ after,
      Log.Shows replayed.view target (operations (host.view.bytesAt target)) after →
      Log.Shows host.view target (operations (host.view.bytesAt target)) after :=
    fun after h => ⟨h.sound, shows.same.trans h.same, h.shown⟩
  have hclear : replayed.view.directory target = false := by
    rw [shows.same.directory, clear]
  have hstart := @Log.Appender.ensures_start conduct _ _ _ policy shows.sound
    (shows.same.names names) hclear fun hshort => (hmemtable hshort).1
  rw [shows.shown] at hstart
  refine Action.Ensures.bind_of (hstart.mono (fun after h => same after (hback after h))
    (fun _ _ h => h) fun _ _ h => h) ?_ fun e after h => failed h.1 e after (hback after h.2)
  rintro log started ⟨hshort, holds⟩
  exact done memtable log _ started (hmemtable hshort).2 (holds.since shows.same) shows.shown

/-- A store that was just opened: its memtable is empty, and so is its log. -/
structure Begun (conduct : Conduct) (path : Path) (root : Location) (used : Nat)
    (ops : List Operation) (store : Portable) (host : Host) : Prop
    extends Live conduct path root used ops store host where
  memtable : store.memtable = .empty
  log : host.view.bytesAt (logPlace root) = []

section Load

variable {store : Portable} {logged tabled : Nat} {volumes : List Volume} {bytes : Bytes}
  {reporting : Bool}

/-- An opening that fails leaves the history, and the lock to its caller. -/
def LeftLocked (conduct : Conduct) (path : Path) (root : Location) (used : Nat)
    (ops : List Operation) (lockFile : Handle) (host : Host) : Prop :=
  conduct.Excuse ∧ Held conduct path root used ops lockFile host

/-- The store as it would be if what was replayed stayed in its memtable. -/
theorem Serving.of_replay (holding : Holding v root ops logged tabled volumes)
    (serves : Serves store.tables.tables v (tablesPlace root) volumes)
    (holds : store.log.Holds v (logPlace root) bytes host)
    (hops : operations bytes = ops.drop logged)
    (memtable : ∀ key, store.memtable.find? key = told (ops.drop logged) key)
    (tablesPath : v.Reaches store.tables.directory (tablesPlace root))
    (next : ∀ volume ∈ volumes, volume.id < store.tables.nextId.toNat)
    (next_le : store.tables.nextId.toNat ≤ used + 1) (lock : Locks store.lockFile v root) :
    Serving store root used ops logged logged tabled tabled volumes volumes bytes host := by
  have helsewhere : ¬ tablesPlace root <+: logPlace root := not_prefix_tablesPlace (by decide)
  have hbytes : host.view.bytesAt (logPlace root) = bytes := View.bytesAt_of_file? holds.file
  exact {
    log := holds.here
    holding := holding.ofLog holds.same (List.prefix_refl _) holding.le (by rw [hbytes, hops])
    tables := ⟨⟨holds.sound, .refl _ _, holding.shelves.sameBut holds.same helsewhere⟩,
      serves.sameBut holds.same helsewhere⟩
    tablesPath := holds.same.reaches tablesPath
    memtable
    newest := holding.tables
    next := fun volume hmem => (List.mem_append.1 hmem).elim (next volume) (next volume)
    next_le
    logged_le := holding.le
    recent_le := holding.le
    le_tabled := Nat.le_refl _
    lock := lock.sameBut holds.same }

/-- If nothing was replayed, the log begins where the history ends, as do the tables. -/
theorem Serving.begun_of_isEmpty
    (h : Serving store root used ops logged logged tabled tabled volumes volumes bytes host)
    (reaches : host.view.Reaches path root) (tidy : Tidy host.view root) (fit : Fit ops)
    (empty : store.memtable.isEmpty = true) :
    Begun conduct path root used ops { store with memtable := .empty } host := by
  have hfind := Memtable.find?_of_isEmpty empty
  have hnil : ops.drop logged = [] :=
    (fit.drop logged).eq_nil fun key => (h.memtable key).symm.trans (hfind key)
  have hlogged : logged = tabled := by
    have := List.drop_eq_nil_iff.1 hnil
    have := h.holding.le_length
    have := h.holding.le
    omega
  have hmemtable : ∀ key, Memtable.empty.find? key = told (ops.drop logged) key := by
    intro key
    rw [hnil]
    rfl
  have hlive : Live conduct path root used ops { store with memtable := .empty } host :=
    ⟨reaches, tidy, fit, logged, logged, tabled, tabled, volumes, volumes, bytes,
      { h with memtable := hmemtable }, fun _ => ⟨hlogged, rfl⟩⟩
  refine ⟨hlive, rfl, ?_⟩
  rw [View.bytesAt_of_file? h.log.file]
  exact Log.eq_nil_of_operations h.log.clean (h.operations_eq.trans hnil)

/-- What was replayed is written out, after which the tables hold the whole history. -/
theorem Serving.ensures_writeOutReplayed
    (h : Serving store root used ops logged logged tabled tabled volumes volumes bytes host)
    (reaches : host.view.Reaches path root) (tidy : Tidy host.view root) (fit : Fit ops)
    (steady : conduct.Steady → logged = tabled ∨ tabled = ops.length)
    (small : used + 2 < UInt64.size) :
    (writeOutReplayed store.log store.tables store.memtable reporting).Ensures conduct
      (Held conduct path root (used + 1) ops store.lockFile)
      (fun opened after => Begun conduct path root (used + 1) ops
        { store with log := opened.1, tables := opened.2, memtable := .empty } after)
      (fun _ => LeftLocked conduct path root (used + 1) ops store.lockFile) host := by
  have homed := Homed.of_reaches reaches
  unfold writeOutReplayed
  by_cases hempty : store.memtable.isEmpty = true
  · have hbegun : Begun conduct path root used ops { store with memtable := .empty } host :=
      h.begun_of_isEmpty reaches tidy fit hempty
    simp only [hempty, if_true]
    exact Action.ensures_pure ⟨hbegun.toLive.mono (Nat.le_succ used), rfl, hbegun.log⟩
  have hnonempty : store.memtable.isEmpty = false := by simpa using hempty
  simp only [hnonempty]
  refine Action.Ensures.bind (Action.ensures_ofScript (ensures_tell h.log.sound
    (h.held_of_keptOr homed tidy fit steady (Or.inl h.tables.toKept)) ?_))
  intro shown hsound hview
  -- A message changes nothing that matters here.
  have hshown := h.sameView hsound hview
  rw [← hview] at reaches homed tidy
  refine ⟨hshown.held_of_keptOr homed tidy fit steady (Or.inl hshown.tables.toKept), ?_⟩
  refine Action.Ensures.bind_of (Action.ensures_ofScript ((TableStack.ensures_flush
    hshown.tables hshown.tablesPath (hshown.fresh fit) rfl rfl hnonempty).mono ?_
      fun _ _ h => h)) ?_ fun _ _ h => h
  · intro after kept
    exact hshown.held_of_keptOr homed tidy fit steady kept
  rintro ⟨result, tables⟩ flushed ⟨hdirectory, hid, hresult⟩
  simp only at hdirectory hid hresult
  rcases hresult with ⟨summary, rfl, hstacked⟩ | ⟨excuse, ⟨e, rfl⟩, hstacked⟩
  · -- From here on the log may be emptied: the tables hold the whole history.
    refine Action.Ensures.bind_of (Action.ensures_ofScript
      ((hshown.flushed small hstacked hdirectory hid).ensures_truncate
        (hstacked.same.reaches reaches) (tidy.sameOutside hstacked.same) fit
        hshown.numbers.2)) ?_ fun _ _ h => h
    rintro ⟨result, log⟩ truncated ⟨hlive, hresult⟩
    simp only at hlive hresult
    rcases hresult with ⟨rfl, hbytes⟩ | ⟨excuse, e, rfl⟩
    · exact Action.ensures_pure ⟨hlive, rfl, hbytes⟩
    · exact Action.ensures_throw ⟨excuse, hlive.held⟩
  · -- The new table is there or not; the log still holds what is in it.
    refine Action.ensures_throw ⟨excuse, hshown.held_of_keptOr homed tidy fit steady ?_⟩
    exact hstacked.imp Stacked.toKept fun hnew => hnew.2.toKept

/-- Log and tables of a locked directory are opened. -/
theorem ensures_load (rests : Rests conduct config.path root used ops host)
    (locks : Locks lockFile host.view root) (reaches : host.view.Reaches config.path root)
    (small : used + 2 < UInt64.size) :
    (load config lockFile).Ensures conduct (Held conduct config.path root (used + 1) ops lockFile)
      (fun store after => Begun conduct config.path root (used + 1) ops store after)
      (fun _ => LeftLocked conduct config.path root (used + 1) ops lockFile) host := by
  obtain ⟨logged, tabled, volumes, holding, numbers, steady⟩ := rests.parts
  have hkeep : ∀ after, Kept host.view (tablesPlace root) volumes after →
      Rests conduct config.path root used ops after :=
    fun after kept => .ofTables rests.homed rests.tidy rests.fit holding kept holding.tables
      numbers (Nat.le_refl _) holding.le_length steady
  have hheldKept : ∀ after, Kept host.view (tablesPlace root) volumes after →
      Held conduct config.path root (used + 1) ops lockFile after :=
    fun after kept => ⟨(hkeep after kept).mono (Nat.le_succ _), locks.sameOutside kept.same⟩
  unfold load
  refine Action.Ensures.bind_of ((TableStack.ensures_start rests.sound reaches
    (show PlainName tablesName by decide) (by decide) rests.tidy.tables holding.shelves).mono
      hheldKept (fun _ _ h => h) fun _ _ h => h) ?_ ?_
  swap
  · rintro e after ⟨excuse, kept⟩
    exact ⟨excuse, hheldKept after kept⟩
  rintro tables opened ⟨kept, hdir, hserves, hdirectory, hnextId⟩
  -- The tables are open now, and nothing else has changed.
  have hopened := hkeep opened kept
  have hheld := holding.ofTables kept.same kept.shelves holding.tables (Nat.le_refl _)
    holding.le_length
  have hlocks := locks.sameOutside kept.same
  have hreaches := kept.same.reaches reaches
  -- The log shows the same until it is emptied.
  have hlog : ∀ after, Log.Shows opened.view (logPlace root) (ops.drop logged) after →
      Held conduct config.path root (used + 1) ops lockFile after := by
    intro after shows
    exact ⟨.ofLog hopened.homed hopened.tidy rests.fit hheld
      (fun volume hmem => Nat.le_succ_of_le (numbers volume hmem)) shows (List.prefix_refl _)
      holding.le steady, hlocks.sameBut shows.same⟩
  refine ensures_openLog hopened.sound (hreaches.names (show PlainName logName by decide))
    hopened.tidy.log hheld.log hlog
    (fun excuse e after h => ⟨excuse, hlog after h⟩) ?_
  intro memtable log bytes started hmemtable holds hops
  -- The store as it would be with the replayed memtable.
  let store : Portable := {
    directory := config.path, lockFile, log, memtable, tables
    writeBufferSize := config.writeBufferSize, reporting := config.logSink }
  have htablesPath : opened.view.Reaches store.tables.directory (tablesPlace root) := by
    rw [show store.tables.directory = config.path.child tablesName from hdirectory]
    exact hreaches.child (by decide) (by decide) hdir
  have hnext := holding.shelves.numberAfter (Nat.lt_of_succ_lt small) numbers
  rw [← hnextId] at hnext
  have hserving : Serving store root used ops logged logged tabled tabled volumes volumes bytes
      started :=
    .of_replay hheld hserves holds hops hmemtable htablesPath hnext.1 hnext.2 hlocks
  refine Action.Ensures.bind_of (hserving.ensures_writeOutReplayed
    (holds.same.reaches hreaches)
    (hopened.tidy.sameBut holds.same (by decide) (by decide)) rests.fit steady small) ?_
    fun _ _ h => h
  rintro ⟨log', tables'⟩ written ⟨hlive, _, hbytes⟩
  refine Action.Ensures.bind (Action.ensures_ofScript (ensures_tell hlive.sound hlive.held ?_))
  intro last hsound hview
  have hlast := hlive.sameView hsound hview
  rw [← hview] at hbytes
  exact ⟨hlast.held, Action.ensures_pure ⟨hlast, rfl, hbytes⟩⟩

end Load

/-- A store is opened on the history that its directory holds, unless the directory or room for its
files is missing. -/
theorem ensures_start (rests : Rests conduct config.path root used ops host)
    (unlocked : Unlocked host.view root) (small : used + 2 < UInt64.size) :
    (start config).Ensures conduct (Rests conduct config.path root (used + 1) ops)
      (fun store after => Begun conduct config.path root (used + 1) ops store after)
      (fun _ after => (conduct.Excuse ∨ ¬ Ready host config.path) ∧
        Rests conduct config.path root (used + 1) ops after ∧ Unlocked after.view root) host := by
  unfold start
  refine Action.Ensures.bind_of ((ensures_prepareDirectory rests unlocked).mono
    (fun _ h => h.mono (Nat.le_succ _)) (fun _ _ h => h) fun _ _ h => h) ?_ ?_
  swap
  · rintro e after ⟨unready, hrests, hunlocked⟩
    exact ⟨Or.inr unready, hrests.mono (Nat.le_succ _), hunlocked⟩
  rintro _ prepared ⟨hrests, hunlocked, hsame⟩
  have hready : Ready host config.path → Ready prepared config.path := by
    intro hready
    rwa [hsame hready]
  refine Action.Ensures.bind_of ((ensures_acquire hrests hunlocked).mono
    (fun _ h => h.mono (Nat.le_succ _)) (fun _ _ h => h) fun _ _ h => h) ?_ ?_
  swap
  · rintro e after ⟨cause, hafter, hfree⟩
    exact ⟨cause.imp_right fun unready h => unready (hready h), hafter.mono (Nat.le_succ _), hfree⟩
  rintro lockFile locked ⟨hrests', hlocks, hreaches⟩
  -- A lock that was taken is given up again if the rest fails.
  refine Action.ensures_orElseCleanup ((ensures_load hrests' hlocks hreaches small).mono
    (fun _ h => h.toRests) (fun _ _ h => h) ?_)
  rintro e after ⟨excuse, hheld⟩
  refine hheld.toRests.ensures_unlock hheld.locks ?_
  intro last hlast hfree _
  exact ⟨Or.inl excuse, hlast, hfree⟩

end OrderedStore.Portable
