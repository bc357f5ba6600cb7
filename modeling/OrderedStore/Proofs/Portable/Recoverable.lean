import OrderedStore.Proofs.Portable.Invariant
import OrderedStore.Proofs.TableStack.Found

/-!
# What can be recovered from a directory

A directory may hold any files. What a store would answer on them is said without opening one: the
operations that can be read from the log decide first, and then the tables, newest first. A table
that cannot be read hides what older ones say.

Main definitions:

- `Portable.Recovers`: what log and tables of a directory say about a key.
- `Portable.SameContent`: every directory says the same.
- `Portable.Settled`: open tables that say all there is to say.

Main statements: `Portable.SameContent.of_idle`, `Portable.SameContent.of_log`,
`Portable.SameContent.of_newTable`, `Portable.Covers.emptied`, `Portable.Settled.get`.
-/

namespace OrderedStore

namespace Portable

open Log (told operations Operation)
open TableStack (nameKind fileName Numbered tableSays)

variable {u v w : View} {host : Host} {root dir place : Location} {name : String} {id : Nat}
  {key : Bytes} {value? : Option Bytes}

/-- What the log of a directory says about a key: nothing, a value, or that it was deleted. -/
def logSays (v : View) (root : Location) (key : Bytes) : Option (Option Bytes) :=
  told (operations (v.bytesAt (logPlace root))) key

/-- What log and tables of a directory say about a key: the log decides first, and a newer table
before an older one. -/
inductive Recovers (v : View) (root : Location) (key : Bytes) : Option Bytes → Prop where
  | logged {value? : Option Bytes} : logSays v root key = some value? → Recovers v root key value?
  | tabled {id : Nat} {value? : Option Bytes} : logSays v root key = none →
      Numbered v (tablesPlace root) id →
      tableSays v (tablesPlace root) id key = some (some value?) →
      (∀ newer, Numbered v (tablesPlace root) newer → id < newer →
        tableSays v (tablesPlace root) newer key = some none) →
      Recovers v root key value?
  | absent : logSays v root key = none →
      (∀ id, Numbered v (tablesPlace root) id → tableSays v (tablesPlace root) id key = some none) →
      Recovers v root key none

theorem Recovers.unique {value?' : Option Bytes} (h : Recovers v root key value?)
    (h' : Recovers v root key value?') : value? = value?' := by
  cases h with
  | logged hlog =>
    cases h' with
    | logged hlog' => exact Option.some.inj (hlog.symm.trans hlog')
    | tabled hlog' _ _ _ => cases hlog.symm.trans hlog'
    | absent hlog' _ => cases hlog.symm.trans hlog'
  | @tabled id _ hlog hnumbered hread hnewer =>
    cases h' with
    | logged hlog' => cases hlog.symm.trans hlog'
    | @tabled id' _ _ hnumbered' hread' hnewer' =>
      -- The newer one of two tables that say something hides the older one.
      rcases Nat.lt_trichotomy id id' with hlt | rfl | hlt
      · cases hread'.symm.trans (hnewer id' hnumbered' hlt)
      · exact Option.some.inj (Option.some.inj (hread.symm.trans hread'))
      · cases hread.symm.trans (hnewer' id hnumbered hlt)
    | absent _ hnone => cases hread.symm.trans (hnone id hnumbered)
  | absent hlog hnone =>
    cases h' with
    | logged hlog' => cases hlog.symm.trans hlog'
    | @tabled id _ _ hnumbered hread _ => cases hread.symm.trans (hnone id hnumbered)
    | absent _ _ => rfl

theorem logSays_congr (h : w.file? (logPlace root) = v.file? (logPlace root)) (key : Bytes) :
    logSays w root key = logSays v root key := by
  rw [logSays, logSays, View.bytesAt, View.bytesAt, h]

theorem Recovers.congr (h : Recovers v root key value?)
    (hlog : logSays w root key = logSays v root key)
    (htables : ∀ name id, nameKind name = .table id →
      w.file? (tablesPlace root ++ [name]) = v.file? (tablesPlace root ++ [name])) :
    Recovers w root key value? := by
  have hnumbered : ∀ id, Numbered w (tablesPlace root) id ↔ Numbered v (tablesPlace root) id :=
    fun id => TableStack.numbered_congr htables
  have hread : ∀ id, Numbered v (tablesPlace root) id →
      tableSays w (tablesPlace root) id key = tableSays v (tablesPlace root) id key :=
    fun id hid => TableStack.tableSays_congr
      (htables _ id (TableStack.nameKind_fileName hid.lt)) key
  cases h with
  | logged hsome => exact .logged (hlog.trans hsome)
  | @tabled id _ hnone hid hvalue hnewer =>
    refine .tabled (hlog.trans hnone) ((hnumbered id).2 hid) ((hread id hid).trans hvalue) ?_
    intro newer hnew hlt
    have hnew := (hnumbered newer).1 hnew
    exact (hread newer hnew).trans (hnewer newer hnew hlt)
  | absent hnone hsilent =>
    refine .absent (hlog.trans hnone) fun id hid => ?_
    have hid := (hnumbered id).1 hid
    exact (hread id hid).trans (hsilent id hid)

/-- What a directory says depends on its log and on its tables only. -/
theorem recovers_congr (hlog : logSays w root key = logSays v root key)
    (htables : ∀ name id, nameKind name = .table id →
      w.file? (tablesPlace root ++ [name]) = v.file? (tablesPlace root ++ [name])) :
    Recovers w root key value? ↔ Recovers v root key value? :=
  ⟨fun h => h.congr hlog.symm fun name id hkind => (htables name id hkind).symm,
    fun h => h.congr hlog htables⟩

/-- Every directory says the same about every key. -/
def SameContent (v w : View) : Prop :=
  ∀ root key value?, Recovers w root key value? ↔ Recovers v root key value?

theorem SameContent.refl (v : View) : SameContent v v :=
  fun _ _ _ => Iff.rfl

theorem SameContent.trans (h : SameContent u v) (h' : SameContent v w) : SameContent u w :=
  fun root key value? => (h' root key value?).trans (h root key value?)

/-- Logs that say the same, and the same tables. -/
theorem SameContent.of_files (hlog : ∀ root key, logSays w root key = logSays v root key)
    (htables : ∀ dir name id, nameKind name = .table id →
      w.file? (dir ++ [name]) = v.file? (dir ++ [name])) : SameContent v w :=
  fun root key _ => recovers_congr (hlog root key) (htables _)

/-- Files that are neither a log nor a table say nothing. -/
theorem SameContent.of_idle (same : ∀ place, w.file? place = v.file? place ∨
    ∃ dir name, place = dir ++ [name] ∧ name ≠ logName ∧ ∀ id, nameKind name ≠ .table id) :
    SameContent v w := by
  have hother : ∀ dir name, (name = logName ∨ ∃ id, nameKind name = .table id) →
      w.file? (dir ++ [name]) = v.file? (dir ++ [name]) := by
    intro dir name hname
    rcases same (dir ++ [name]) with heq | ⟨dir', name', hplace, hlog, htable⟩
    · exact heq
    · rw [(entry_inj hplace).2] at hname
      rcases hname with rfl | ⟨id, hkind⟩
      · exact absurd rfl hlog
      · exact absurd hkind (htable id)
  exact .of_files (fun root => logSays_congr (hother root logName (Or.inl rfl)))
    fun dir name id hkind => hother dir name (Or.inr ⟨id, hkind⟩)

theorem nameKind_logName : nameKind logName = .foreign := by
  decide +kernel

/-- A log is no table. -/
theorem table_file?_of_shows {ops : List Operation} (shows : Log.Shows v (logPlace root) ops host)
    (dir : Location) (name : String) (id : Nat) (hkind : nameKind name = .table id) :
    host.view.file? (dir ++ [name]) = v.file? (dir ++ [name]) := by
  refine shows.same.file? _ fun heq => ?_
  rw [(entry_inj heq).2, nameKind_logName] at hkind
  cases hkind

/-- A log that shows the same operations says the same. -/
theorem SameContent.of_log
    (shows : Log.Shows v (logPlace root) (operations (v.bytesAt (logPlace root))) host) :
    SameContent v host.view := by
  refine .of_files (fun root' key => ?_) (table_file?_of_shows shows)
  by_cases hroot : root' = root
  · rw [hroot, logSays, logSays, shows.shown]
  · exact logSays_congr (shows.same.file? _ fun heq => hroot (entry_inj heq).1) key

/-! ## New tables -/

/-- A table that is newer than all others and says what the log says. -/
structure Covers (v : View) (root : Location) (id : Nat) : Prop where
  small : id < UInt64.size
  newest : ∀ other, Numbered v (tablesPlace root) other → other ≤ id
  told : ∀ key, tableSays v (tablesPlace root) id key = some (logSays v root key)

theorem Covers.numbered (h : Covers v root id) : Numbered v (tablesPlace root) id := by
  refine TableStack.numbered_of_file? h.small ?_
  have hread := h.told []
  unfold TableStack.tableSays at hread
  cases hfile : v.file? (tablesPlace root ++ [fileName id]) with
  | none => simp [hfile] at hread
  | some file => rfl

/-- A new table that says what the log says adds nothing. -/
theorem SameContent.of_newTable {file : Nat × Bytes} (covers : Covers w root id)
    (fresh : ∀ other, Numbered v (tablesPlace root) other → other < id)
    (hview : w = v.put (tablesPlace root ++ [fileName id]) (some file)) : SameContent v w := by
  have same : ∀ other, other ≠ tablesPlace root ++ [fileName id] →
      w.file? other = v.file? other := by
    intro other hne
    rw [hview]
    exact View.put_file?_of_ne _ _ hne
  have hlog : ∀ root' key, logSays w root' key = logSays v root' key := by
    refine fun root' => logSays_congr (same _ fun heq => ?_)
    have hname := TableStack.nameKind_fileName covers.small
    rw [← (entry_inj heq).2, nameKind_logName] at hname
    cases hname
  intro root' key value?
  by_cases hroot : root' = root
  swap
  · exact recovers_congr (hlog root' key) fun name other _ => same _ fun heq =>
      hroot (entry_inj (entry_inj heq).1).1
  subst hroot
  have hnumbered : ∀ other, Numbered w (tablesPlace root') other ↔
      Numbered v (tablesPlace root') other ∨ other = id := by
    intro other
    rw [hview]
    exact TableStack.numbered_put covers.small
  have hread : ∀ other, Numbered v (tablesPlace root') other →
      tableSays w (tablesPlace root') other key = tableSays v (tablesPlace root') other key :=
    fun other hother => TableStack.tableSays_congr (same _
      (TableStack.fileName_ne_of_ne hother covers.small (Nat.ne_of_lt (fresh other hother)))) key
  have hnew := covers.told key
  -- The new table comes into play only where the log says nothing, and then it says nothing.
  constructor
  · intro h
    cases h with
    | logged hsome => exact .logged ((hlog root' key).symm.trans hsome)
    | @tabled other _ hnone hother hvalue hnewer =>
      rw [hnone] at hnew
      have hold : Numbered v (tablesPlace root') other := by
        rcases (hnumbered other).1 hother with hold | rfl
        · exact hold
        · cases hvalue.symm.trans hnew
      refine .tabled ((hlog root' key).symm.trans hnone) hold ((hread other hold).symm.trans hvalue)
        fun newer hnewer' hlt => ?_
      exact (hread newer hnewer').symm.trans (hnewer newer ((hnumbered newer).2 (.inl hnewer')) hlt)
    | absent hnone hsilent =>
      refine .absent ((hlog root' key).symm.trans hnone) fun other hother => ?_
      exact (hread other hother).symm.trans (hsilent other ((hnumbered other).2 (.inl hother)))
  · intro h
    cases h with
    | logged hsome => exact .logged ((hlog root' key).trans hsome)
    | @tabled other _ hnone hother hvalue hnewer =>
      have hnone := (hlog root' key).trans hnone
      rw [hnone] at hnew
      refine .tabled hnone ((hnumbered other).2 (.inl hother)) ((hread other hother).trans hvalue)
        fun newer hnewer' hlt => ?_
      rcases (hnumbered newer).1 hnewer' with hold | rfl
      · exact (hread newer hold).trans (hnewer newer hold hlt)
      · exact hnew
    | absent hnone hsilent =>
      have hnone := (hlog root' key).trans hnone
      rw [hnone] at hnew
      refine .absent hnone fun other hother => ?_
      rcases (hnumbered other).1 hother with hold | rfl
      · exact (hread other hold).trans (hsilent other hold)
      · exact hnew

/-- A log may be emptied when the newest table says what it says. -/
theorem Covers.emptied (covers : Covers v root id)
    (shows : Log.Shows v (logPlace root) [] host) : SameContent v host.view := by
  have htables := table_file?_of_shows shows
  have hnumbered : ∀ other, Numbered host.view (tablesPlace root) other ↔
      Numbered v (tablesPlace root) other := fun other => TableStack.numbered_congr (htables _)
  have hread : ∀ other key, Numbered v (tablesPlace root) other →
      tableSays host.view (tablesPlace root) other key =
        tableSays v (tablesPlace root) other key :=
    fun other key hother => TableStack.tableSays_congr
      (htables _ _ other (TableStack.nameKind_fileName hother.lt)) key
  intro root' key value?
  by_cases hroot : root' = root
  swap
  · refine recovers_congr (logSays_congr (shows.same.file? _ fun heq => ?_) key) (htables _)
    exact hroot (entry_inj heq).1
  subst hroot
  have hempty : logSays host.view root' key = none := by
    rw [logSays, shows.shown, Log.told_nil]
  cases hlog : logSays v root' key with
  | none => exact recovers_congr (hempty.trans hlog.symm) (htables _)
  | some told =>
    -- The log said what the newest table says.
    have hnew := covers.told key
    have hid := covers.numbered
    rw [hlog] at hnew
    have hafter : Recovers host.view root' key told := by
      refine .tabled hempty ((hnumbered id).2 hid) ((hread id key hid).trans hnew)
        fun newer hnewer hlt => ?_
      have := covers.newest newer ((hnumbered newer).1 hnewer)
      omega
    have hbefore : Recovers v root' key told := .logged hlog
    constructor
    · intro h
      rwa [h.unique hafter]
    · intro h
      rwa [h.unique hbefore]

/-! ## Stores on what can be recovered -/

/-- Open tables on all tables of a directory whose log says nothing. -/
def Settled (tables : List Table) (v : View) (root : Location) : Prop :=
  ∃ ids, TableStack.Stocked tables v (tablesPlace root) ids ∧ ∀ key, logSays v root key = none

/-- What a directory says is found in its tables if the log says nothing. -/
theorem Recovers.finds {tables : List Table} {ids : List Nat} (h : Recovers v root key value?)
    (stocked : TableStack.Stocked tables v (tablesPlace root) ids)
    (silent : logSays v root key = none) :
    ∃ said, TableStack.Finds v (tablesPlace root) key ids said ∧ said.join = value? := by
  cases h with
  | logged hsome => cases silent.symm.trans hsome
  | @tabled id _ _ hid hvalue hnewer =>
    refine ⟨some value?, TableStack.finds_of_mem ((stocked.full id).1 hid) stocked.descending hvalue
      fun other hmem hlt => ?_, rfl⟩
    exact hnewer other ((stocked.full other).2 hmem) hlt
  | absent _ hsilent =>
    exact ⟨none, TableStack.finds_none fun id hmem => hsilent id ((stocked.full id).2 hmem), rfl⟩

/-- A store with an empty memtable gives what its directory says. -/
theorem Settled.get {store : Portable} (settled : Settled store.tables.tables host.view root)
    (memtable : store.memtable = .empty) (recovers : Recovers host.view root key value?) :
    (store.get key).perform host = (.ok value?, host) := by
  obtain ⟨ids, stocked, silent⟩ := settled
  obtain ⟨said, hfinds, rfl⟩ := recovers.finds stocked (silent key)
  refine Action.perform_of_ensures ?_
  have hfind : store.memtable.find? key = none := by
    rw [memtable]
    rfl
  unfold Portable.get
  rw [hfind]
  refine Action.Ensures.bind_of (TableStack.ensures_findIn_any stocked.shown hfinds trivial) ?_
    fun _ _ h => h
  rintro found _ ⟨rfl, rfl⟩
  exact Action.ensures_pure ⟨rfl, rfl⟩

end Portable

end OrderedStore
