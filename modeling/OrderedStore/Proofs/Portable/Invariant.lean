import OrderedStore.Engine.Portable
import OrderedStore.Proofs.Host.Directories
import OrderedStore.Proofs.Log.History
import OrderedStore.Proofs.Log.Writing
import OrderedStore.Proofs.TableStack.Flushing

/-!
# What a store keeps

Log and tables of a store hold parts of one history: the log all operations from some place on, the
tables all operations up to a place that does not lie before it. Together they say what the whole
history says, however far they overlap.

Main definitions:

- `Portable.Rests`: a directory that holds a history, whether a store is open on it or not.
- `Portable.Live`: an open store on such a directory.
-/

namespace OrderedStore.Portable

open Log (Operation told Fit operations)
open TableStack (Volume Shelves Serves Stacked Kept KeptOr)

/-! ## Places -/

def lockPlace (root : Location) : Location :=
  root ++ [lockName]

def logPlace (root : Location) : Location :=
  root ++ [logName]

def tablesPlace (root : Location) : Location :=
  root ++ [tablesName]

variable {conduct : Conduct} {v w : View} {host after : Host} {path : Path} {root : Location}
  {name : String} {used : Nat} {ops ops' : List Operation}
  {logged logged' recent tabled tabled' served : Nat} {volumes volumes' servedVolumes : List Volume}

theorem not_prefix_tablesPlace (h : name ≠ tablesName) :
    ¬ tablesPlace root <+: root ++ [name] := by
  intro hinitial
  have hlength := hinitial.eq_of_length (by simp [tablesPlace])
  exact h (by simpa [tablesPlace] using hlength.symm)

/-- A path leads to a place, or will when the directories that are missing are made. -/
structure Homed (v : View) (path : Path) (root : Location) : Prop where
  ending : v.ending path = root
  leads : v.Reaches path root ∨ .up ∉ path.steps

/-- Nothing in a directory is in the way of the files of a store. -/
structure Tidy (v : View) (root : Location) : Prop where
  marker : v.kind? (root ++ [nativeMarker]) = none
  lock : v.directory (lockPlace root) = false
  log : v.directory (logPlace root) = false
  tables : v.file? (tablesPlace root) = none

/-- No process holds the lock of a directory. -/
def Unlocked (v : View) (root : Location) : Prop :=
  ∀ id bytes, v.file? (lockPlace root) = some (id, bytes) → id ∉ v.locked

/-- A handle is on the lock file of a directory. -/
def Locks (lockFile : Handle) (v : View) (root : Location) : Prop :=
  ∃ bytes, v.file? (lockPlace root) = some (lockFile.id, bytes)

theorem Homed.mono (h : Homed v path root) (hbase : w.base = v.base)
    (hdir : ∀ place, v.directory place = true → w.directory place = true) :
    Homed w path root where
  ending := by
    -- Where a path starts is a matter of the base directory alone.
    have hstart : w.startOf path = v.startOf path := by
      simp [View.startOf, hbase]
    rw [View.ending, hstart]
    exact h.ending
  leads := by
    rcases h.leads with hreaches | hup
    · exact Or.inl (hreaches.mono hbase hdir)
    · exact Or.inr hup

theorem Homed.sameBut {place : Location} (h : Homed v path root) (same : v.SameBut w place) :
    Homed w path root :=
  h.mono same.base fun _ hdir => by rwa [same.directory]

theorem Homed.sameOutside {place : Location} (h : Homed v path root)
    (same : v.SameOutside w place) : Homed w path root :=
  h.mono same.base same.kept

theorem Tidy.sameBut (h : Tidy v root) (same : v.SameBut w (root ++ [name]))
    (hmarker : name ≠ nativeMarker) (htables : name ≠ tablesName) : Tidy w root where
  marker := by
    have hne : root ++ [nativeMarker] ≠ root ++ [name] := by simpa using hmarker.symm
    rw [← h.marker, View.kind?, View.kind?, same.file? _ hne, same.directory]
  lock := by rw [same.directory, h.lock]
  log := by rw [same.directory, h.log]
  tables := by
    have hne : tablesPlace root ≠ root ++ [name] := by simpa [tablesPlace] using htables.symm
    rw [same.file? _ hne, h.tables]

theorem Tidy.sameOutside (h : Tidy v root) (same : v.SameOutside w (tablesPlace root)) :
    Tidy w root where
  marker := by
    have hnot : ¬ tablesPlace root <+: root ++ [nativeMarker] :=
      not_prefix_tablesPlace (by decide)
    rw [← h.marker, View.kind?, View.kind?, same.file? _ hnot, same.directory _ hnot]
  lock := by
    rw [← h.lock]
    exact same.directory _ (not_prefix_tablesPlace (by decide))
  log := by
    rw [← h.log]
    exact same.directory _ (not_prefix_tablesPlace (by decide))
  tables := same.self.trans h.tables

/-! ## The directory -/

/-- A log and tables that hold a history: the log from one place on, the tables up to another. -/
structure Holding (v : View) (root : Location) (ops : List Operation) (logged tabled : Nat)
    (volumes : List Volume) : Prop where
  log : operations (v.bytesAt (logPlace root)) = ops.drop logged
  shelves : Shelves v (tablesPlace root) volumes
  tables : ∀ key, Merge.newest (volumes.map (·.entries)) key = told (ops.take tabled) key
  le : logged ≤ tabled
  le_length : tabled ≤ ops.length

/-- The log changes. -/
theorem Holding.ofLog (h : Holding v root ops logged tabled volumes)
    (same : v.SameBut w (logPlace root)) (longer : ops <+: ops') (le : logged' ≤ tabled)
    (log : operations (w.bytesAt (logPlace root)) = ops'.drop logged') :
    Holding w root ops' logged' tabled volumes where
  log := log
  shelves := h.shelves.sameBut same (not_prefix_tablesPlace (by decide))
  tables key := by
    obtain ⟨more, rfl⟩ := longer
    rw [List.take_append_of_le_length h.le_length, h.tables]
  le := le
  le_length := Nat.le_trans h.le_length longer.length_le

/-- The log place lies outside the directory of the tables. -/
theorem bytesAt_logPlace (same : v.SameOutside w (tablesPlace root)) :
    w.bytesAt (logPlace root) = v.bytesAt (logPlace root) := by
  have hfile : w.file? (logPlace root) = v.file? (logPlace root) :=
    same.file? _ (not_prefix_tablesPlace (by decide))
  rw [View.bytesAt, View.bytesAt, hfile]

/-- The tables change. -/
theorem Holding.ofTables (h : Holding v root ops logged tabled volumes)
    (same : v.SameOutside w (tablesPlace root)) (shelves : Shelves w (tablesPlace root) volumes')
    (tables : ∀ key, Merge.newest (volumes'.map (·.entries)) key = told (ops.take tabled') key)
    (le : tabled ≤ tabled') (le_length : tabled' ≤ ops.length) :
    Holding w root ops logged tabled' volumes' where
  log := by rw [bytesAt_logPlace same, h.log]
  shelves := shelves
  tables := tables
  le := Nat.le_trans h.le le
  le_length := le_length

/-- Another file changes. -/
theorem Holding.sameBut (h : Holding v root ops logged tabled volumes)
    (same : v.SameBut w (root ++ [name])) (hlog : name ≠ logName) (htables : name ≠ tablesName) :
    Holding w root ops logged tabled volumes where
  log := by
    have hne : logPlace root ≠ root ++ [name] := by simpa [logPlace] using hlog.symm
    rw [← h.log, View.bytesAt, View.bytesAt, same.file? _ hne]
  shelves := h.shelves.sameBut same (not_prefix_tablesPlace htables)
  tables := h.tables
  le := h.le
  le_length := h.le_length

/-- A directory that holds a history. Table numbers up to `used` may be taken. Where calls fail only
for a reason, the tables end where the log begins, or hold the whole history. -/
structure Rests (conduct : Conduct) (path : Path) (root : Location) (used : Nat)
    (ops : List Operation) (host : Host) : Prop where
  sound : host.Sound
  homed : Homed host.view path root
  tidy : Tidy host.view root
  fit : Fit ops
  parts : ∃ logged tabled volumes, Holding host.view root ops logged tabled volumes ∧
    (∀ volume ∈ volumes, volume.id ≤ used) ∧
    (conduct.Steady → logged = tabled ∨ tabled = ops.length)

theorem Rests.mono (h : Rests conduct path root used ops host) {more : Nat} (le : used ≤ more) :
    Rests conduct path root more ops host := by
  obtain ⟨logged, tabled, volumes, holding, hused, steady⟩ := h.parts
  exact ⟨h.sound, h.homed, h.tidy, h.fit, logged, tabled, volumes, holding,
    fun volume hmem => Nat.le_trans (hused volume hmem) le, steady⟩

/-- The lock file lies outside the directory of the tables, and beside the log. -/
theorem Locks.sameOutside {lockFile : Handle} (h : Locks lockFile v root)
    (same : v.SameOutside w (tablesPlace root)) : Locks lockFile w root := by
  obtain ⟨bytes, hfile⟩ := h
  exact ⟨bytes, (same.file? _ (not_prefix_tablesPlace (by decide))).trans hfile⟩

theorem Locks.sameBut {lockFile : Handle} (h : Locks lockFile v root)
    (same : v.SameBut w (logPlace root)) : Locks lockFile w root := by
  obtain ⟨bytes, hfile⟩ := h
  exact ⟨bytes, (same.file? _ (by simp [lockPlace, logPlace]; decide)).trans hfile⟩

/-- A directory that holds a history, and a handle on its lock file. -/
structure Held (conduct : Conduct) (path : Path) (root : Location) (used : Nat)
    (ops : List Operation) (lockFile : Handle) (host : Host) : Prop
    extends Rests conduct path root used ops host where
  locks : Locks lockFile host.view root

theorem Held.sameView {lockFile : Handle} {after : Host}
    (held : Held conduct path root used ops lockFile host) (sound : after.Sound)
    (hview : after.view = host.view) : Held conduct path root used ops lockFile after := by
  obtain ⟨⟨_, homed, tidy, fit, parts⟩, locks⟩ := held
  rw [← hview] at homed tidy parts locks
  exact ⟨⟨sound, homed, tidy, fit, parts⟩, locks⟩

/-- A sound host with nothing in the directory that a path leads to, or will lead to. -/
structure Vacant (host : Host) (path : Path) : Prop where
  sound : host.Sound
  empty : ∀ name rest, host.view.kind? (host.view.ending path ++ name :: rest) = none

theorem vacant_empty (path : Path) : Vacant Host.empty path where
  sound := Host.sound_empty
  empty name rest := by
    rw [← Host.kindAt?_eq_kind?, Disk.kindAt?]
    exact congrArg _ (Disk.node?_empty _ name rest)

theorem Vacant.file? (vacant : Vacant host path) (name : String) (rest : Location) :
    host.view.file? (host.view.ending path ++ name :: rest) = none := by
  have hkind := vacant.empty name rest
  unfold View.kind? at hkind
  split at hkind
  · cases hkind
  · rename_i hnone
    simpa using hnone

theorem Vacant.directory (vacant : Vacant host path) (name : String) (rest : Location) :
    host.view.directory (host.view.ending path ++ name :: rest) = false := by
  have hkind := vacant.empty name rest
  unfold View.kind? at hkind
  split at hkind
  · cases hkind
  · split at hkind
    · cases hkind
    · rename_i hdir
      simpa using hdir

/-- An empty directory holds the empty history. -/
theorem Vacant.rests (vacant : Vacant host path)
    (leads : host.view.Reaches path (host.view.ending path) ∨ .up ∉ path.steps) :
    Rests conduct path (host.view.ending path) 0 [] host := by
  have hlog : host.view.bytesAt (logPlace (host.view.ending path)) = [] := by
    simp [View.bytesAt, logPlace, vacant.file?]
  have hfile : ∀ name, host.view.file? (tablesPlace (host.view.ending path) ++ [name]) = none := by
    intro name
    have := vacant.file? tablesName [name]
    simpa [tablesPlace] using this
  have hdir : ∀ name,
      host.view.directory (tablesPlace (host.view.ending path) ++ [name]) = false := by
    intro name
    have := vacant.directory tablesName [name]
    simpa [tablesPlace] using this
  -- No log and no tables: both parts of the history are empty.
  refine ⟨vacant.sound, ⟨rfl, leads⟩, ?_, by simp [Fit], 0, 0, [], ?_, by simp, fun _ => Or.inl rfl⟩
  · exact ⟨vacant.empty _ _, vacant.directory _ _, vacant.directory _ _, vacant.file? _ _⟩
  · refine ⟨?_, ⟨.nil, by simp, by simp, by simp, ?_, hdir⟩, fun _ => rfl, Nat.le_refl _,
      Nat.le_refl _⟩
    · rw [hlog, Log.operations_nil]
      rfl
    · intro name id bytes hsome
      rw [hfile] at hsome
      cases hsome

theorem Vacant.unlocked (vacant : Vacant host path) :
    Unlocked host.view (host.view.ending path) := by
  intro id bytes hfile
  have hnone := vacant.file? lockName []
  rw [lockPlace] at hfile
  rw [hfile] at hnone
  cases hnone

/-- The directory after a change of the log. -/
theorem Rests.ofLog (homed : Homed host.view path root) (tidy : Tidy host.view root)
    (fit : Fit ops') (holding : Holding host.view root ops logged tabled volumes)
    (numbers : ∀ volume ∈ volumes, volume.id ≤ used)
    (shows : Log.Shows host.view (logPlace root) (ops'.drop logged') after) (longer : ops <+: ops')
    (le : logged' ≤ tabled) (steady : conduct.Steady → logged' = tabled ∨ tabled = ops'.length) :
    Rests conduct path root used ops' after :=
  ⟨shows.sound, homed.sameBut shows.same,
    tidy.sameBut shows.same (by decide) (by decide), fit,
    logged', tabled, volumes, holding.ofLog shows.same longer le shows.shown, numbers, steady⟩

/-- The directory after a change of the tables. -/
theorem Rests.ofTables (homed : Homed host.view path root) (tidy : Tidy host.view root)
    (fit : Fit ops) (holding : Holding host.view root ops logged tabled volumes)
    (kept : Kept host.view (tablesPlace root) volumes' after)
    (tables : ∀ key, Merge.newest (volumes'.map (·.entries)) key = told (ops.take tabled') key)
    (numbers : ∀ volume ∈ volumes', volume.id ≤ used) (le : tabled ≤ tabled')
    (le_length : tabled' ≤ ops.length)
    (steady : conduct.Steady → logged = tabled' ∨ tabled' = ops.length) :
    Rests conduct path root used ops after :=
  ⟨kept.sound, homed.sameOutside kept.same, tidy.sameOutside kept.same, fit,
    logged, tabled', volumes', holding.ofTables kept.same kept.shelves tables le le_length, numbers,
    steady⟩

/-- Locks do not matter to what a directory holds. -/
theorem Rests.relock (h : Rests conduct path root used ops host) (sound : after.Sound)
    {locked : List Nat} (hview : after.view = host.view.withLocked locked) :
    Rests conduct path root used ops after := by
  obtain ⟨logged, tabled, volumes, holding, numbers, steady⟩ := h.parts
  refine ⟨sound, ?_, ?_, h.fit, logged, tabled, volumes, ?_, numbers, steady⟩
  · rw [hview]
    exact h.homed.mono rfl fun _ hdir => hdir
  · rw [hview]
    exact ⟨h.tidy.marker, h.tidy.lock, h.tidy.log, h.tidy.tables⟩
  · rw [hview]
    exact ⟨holding.log, holding.shelves.congr (fun _ => rfl) fun _ => rfl, holding.tables,
      holding.le, holding.le_length⟩

/-! ## Open stores -/

/-- An open store: the log and the memtable hold the operations from some places on, the open tables
those up to a place that does not lie before them. There may be table files that are not open. -/
structure Serving (store : Portable) (root : Location) (used : Nat) (ops : List Operation)
    (logged recent served tabled : Nat) (volumes servedVolumes : List Volume) (bytes : Bytes)
    (host : Host) : Prop where
  log : store.log.Holds host.view (logPlace root) bytes host
  holding : Holding host.view root ops logged tabled volumes
  tables : Stacked host.view (tablesPlace root) volumes servedVolumes store.tables.tables host
  tablesPath : host.view.Reaches store.tables.directory (tablesPlace root)
  memtable : ∀ key, store.memtable.find? key = told (ops.drop recent) key
  newest : ∀ key, Merge.newest (servedVolumes.map (·.entries)) key = told (ops.take served) key
  next : ∀ volume ∈ volumes ++ servedVolumes, volume.id < store.tables.nextId.toNat
  next_le : store.tables.nextId.toNat ≤ used + 1
  logged_le : logged ≤ served
  recent_le : recent ≤ served
  le_tabled : served ≤ tabled
  lock : Locks store.lockFile host.view root

/-- An open store on a directory that holds a history. -/
structure Live (conduct : Conduct) (path : Path) (root : Location) (used : Nat)
    (ops : List Operation) (store : Portable) (host : Host) : Prop where
  reaches : host.view.Reaches path root
  tidy : Tidy host.view root
  fit : Fit ops
  parts : ∃ logged recent served tabled volumes servedVolumes bytes,
    Serving store root used ops logged recent served tabled volumes servedVolumes bytes host ∧
    (conduct.Steady → logged = served ∧ served = tabled)

variable {store : Portable} {bytes : Bytes}

theorem Serving.id_le
    (h : Serving store root used ops logged recent served tabled volumes servedVolumes bytes
      host) :
    ∀ volume ∈ volumes, volume.id ≤ used := by
  intro volume hmem
  have := h.next volume (List.mem_append_left _ hmem)
  have := h.next_le
  omega

theorem Homed.of_reaches (h : v.Reaches path root) : Homed v path root :=
  ⟨h.eq_ending.symm, Or.inl h⟩

theorem Live.homed (live : Live conduct path root used ops store host) :
    Homed host.view path root :=
  .of_reaches live.reaches

theorem Live.sound (live : Live conduct path root used ops store host) : host.Sound := by
  obtain ⟨_, _, _, _, _, _, _, serving, _⟩ := live.parts
  exact serving.log.sound

/-- The directory under an open store. -/
theorem Live.rests (live : Live conduct path root used ops store host) :
    Rests conduct path root used ops host := by
  obtain ⟨logged, recent, served, tabled, volumes, servedVolumes, bytes, serving, steady⟩ :=
    live.parts
  refine ⟨live.sound, live.homed, live.tidy, live.fit, logged, tabled, volumes, serving.holding,
    serving.id_le, ?_⟩
  intro hsteady
  obtain ⟨hlogged, hserved⟩ := steady hsteady
  exact Or.inl (hlogged.trans hserved)

theorem Live.held (live : Live conduct path root used ops store host) :
    Held conduct path root used ops store.lockFile host := by
  obtain ⟨_, _, _, _, _, _, _, serving, _⟩ := live.parts
  exact ⟨live.rests, serving.lock⟩

theorem Live.mono (live : Live conduct path root used ops store host) {more : Nat}
    (le : used ≤ more) : Live conduct path root more ops store host := by
  obtain ⟨logged, recent, served, tabled, volumes, servedVolumes, bytes, serving, steady⟩ :=
    live.parts
  refine ⟨live.reaches, live.tidy, live.fit, logged, recent, served, tabled, volumes,
    servedVolumes, bytes, { serving with next_le := ?_ }, steady⟩
  exact Nat.le_trans serving.next_le (Nat.succ_le_succ le)

/-- What memtable and open tables say together. -/
theorem Serving.newest_eq
    (h : Serving store root used ops logged recent served tabled volumes servedVolumes bytes
      host)
    (key : Bytes) :
    Merge.newest (store.sourcesWith (servedVolumes.map (·.entries))) key = told ops key := by
  rw [newest_sourcesWith, h.memtable, h.newest, Log.told_overlap ops h.recent_le]

end OrderedStore.Portable
