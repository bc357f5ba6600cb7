import Mathlib.Logic.Relation
import OrderedStore.Proofs.TableStack.Found

/-!
# Tables in the order in which they were written

A directory of tables is opened, memtables are written out to it, it is read, dropped and opened
again, any number of times, and what it does may be hindered. No table file changes then once it has
its name. The open tables are all tables that were written, the newest in front, and they are the
same ones after the directory was opened again.

Main definitions:

- `TableStack.Archived`: a directory with the tables that were written.
- `TableStack.Ranked`: open tables in the order in which they were written.
- `TableStack.Step`: a step of a run.

Main statement: `TableStack.tables_by_recency`.
-/

namespace OrderedStore

/-- A call that opens a file to read it, or reads it. -/
def Call.Looks : Call → Prop
  | .openFile _ .read | .read _ _ _ => True
  | _ => False

namespace TableStack

variable {may : Host → Call → Prop} {host after : Host} {v w : View} {dir : Location}
  {path : Path} {volumes : List Volume} {volume : Volume} {memtable : Memtable} {table : Table}
  {tables : List Table} {ids : List Nat} {capacity number : Nat} {entries : List TableEntry}

/-! ## Write-outs that are read back -/

/-- Every call may be refused but those that look at a file. -/
def Sighted (_ : Host) (call : Call) : Prop :=
  ¬ call.Looks

/-- An open table on the file of a volume, under the path of this file. -/
structure Volume.ReadBy (volume : Volume) (v : View) (dir : Location) (path : Path)
    (table : Table) : Prop extends volume.OpenedBy v dir table where
  path : table.path = path.child (fileName volume.id)

/-- A reader is known by what it reads. -/
theorem Volume.ReadBy.unique {other : Table} (h : volume.ReadBy v dir path table)
    (h' : volume.ReadBy v dir path other) : table = other := by
  have hpath : table.path = other.path := h.path.trans h'.path.symm
  have hlayout : table.layout = other.layout := h.layout.trans h'.layout.symm
  -- Both are on the file that stands at the place of the volume.
  have hfile := Option.some.inj (h.file.symm.trans h'.file)
  have hhandle : table.handle = other.handle := congrArg Handle.mk (congrArg Prod.fst hfile)
  calc table = ⟨table.path, table.handle, table.layout⟩ := rfl
    _ = ⟨other.path, other.handle, other.layout⟩ := by rw [hpath, hhandle, hlayout]
    _ = other := rfl

theorem Volume.ReadBy.congr (h : volume.ReadBy v dir path table)
    (same : w.file? (dir ++ [fileName volume.id]) = v.file? (dir ++ [fileName volume.id])) :
    volume.ReadBy w dir path table :=
  ⟨⟨h.id_lt, h.wellFormed, h.layout, same.trans h.file⟩, h.path⟩

/-- A table whose opening is not hindered is opened. -/
theorem table_start_endured {place : Location} {owner : Nat} {result : Except Error Table}
    (sound : host.Sound) (names : host.view.Names path place) (short : ¬ path.Overlong)
    (file : host.view.file? place = some (owner, Table.image entries))
    (wellFormed : Table.WellFormed entries)
    (run : (Table.start path capacity).run.Endures Sighted host result after) :
    ∃ table, result = .ok table ∧ table.layout = Table.layoutOf entries ∧ table.path = path ∧
      table.handle = ⟨owner⟩ ∧ after = host := by
  -- What the opening asks for is a look at the file, or the size of the file, which no one refuses.
  have only : (Table.start path capacity).Only fun call => ∀ host reply, Sighted host call →
      (call.fault? reply).isSome → Conduct.own.refuses host call := by
    refine (Action.passes_only _).startTable (fun handle offset count => ?_) (fun path => ?_)
      (fun handle => ?_) path capacity
    · exact Action.only_read fun _ _ may _ => absurd trivial may
    · exact Action.only_attempt (Script.only_call fun _ _ may _ => absurd trivial may)
    · exact Action.only_ofScript (Script.only_call fun _ _ _ fault => by cases fault)
  have hensures : (Table.start path capacity).Ensures .own (fun _ => True) _ _ host :=
    Table.ensures_start sound names file wellFormed trivial
  have hlast := Script.Ensures.yields hensures (run.yields_of_foreseen id only)
  cases result with
  | ok table =>
    obtain ⟨opened, hpath, hhandle, hsame⟩ := hlast
    exact ⟨table, rfl, opened.layout, hpath, hhandle, hsame⟩
  | error e =>
    obtain ⟨_, hlong | unsteady, _⟩ := hlast
    · exact absurd hlong short
    · exact absurd Conduct.steady_own unsteady

/-- A finished draft gets the name of its table, or stays what it is. -/
theorem rename_drafted_endured {result : Except Error Unit}
    (drafted : Drafted v path dir number entries host) (small : number < UInt64.size)
    (run : (Action.rename (path.child (draftName number))
      (path.child (fileName number))).run.Endures may host result after) :
    (result = .ok () ∧ ¬ (path.child (fileName number)).Overlong ∧
      Added v dir number entries after ∧
      after.view.Names (path.child (fileName number)) (dir ++ [fileName number])) ∨
    (∃ e, result = .error e) ∧ after = host := by
  have hensures : (Action.rename (path.child (draftName number))
      (path.child (fileName number))).Ensures .frail (fun _ => True)
      (fun _ last => ¬ (path.child (fileName number)).Overlong ∧ Added v dir number entries last ∧
        last.view.Names (path.child (fileName number)) (dir ++ [fileName number]))
      (fun _ last => last = host) host :=
    ensures_rename_drafted drafted small trivial (fun _ => rfl)
      fun last hshort hadded hnames => ⟨trivial, hshort, hadded, hnames⟩
  have only : (Action.rename (path.child (draftName number)) (path.child (fileName number))).Only
      fun call => ∀ host reply, may host call → (call.fault? reply).isSome →
        Conduct.frail.refuses host call :=
    Action.only_attempt (Script.only_call fun _ _ _ _ => trivial)
  have hlast := Script.Ensures.yields hensures (run.yields_of_foreseen id only)
  cases result with
  | ok done => exact Or.inl ⟨rfl, hlast⟩
  | error e => exact Or.inr ⟨⟨e, rfl⟩, hlast⟩

/-- The writing of a table that can be read back ends with the table, or leaves a draft at most. -/
theorem writeTable_endured {result : Except Error (Table.Summary × Table)} (sound : host.Sound)
    (home : host.view.ending path = dir) (small : number < UInt64.size)
    (short : ∀ entry ∈ memtable.toList, entry.1.length < Bytes.fieldSize 4)
    (run : (writeTable path capacity number memtable).run.Endures Sighted host result after) :
    (∃ written, result = .ok written ∧ Added host.view dir number memtable.toList after ∧
      Volume.ReadBy ⟨number, memtable.toList⟩ after.view dir path written.2) ∨
    (∃ e, result = .error e) ∧ after.Swept host.view dir := by
  have hswept : ∀ last : Host, last.Touched host.view (dir ++ [draftName number]) →
      last.Swept host.view dir :=
    fun last h => ⟨h.sound, .of_sameBut h.same (nameKind_draftName number)⟩
  rw [writeTable_eq] at run
  have hdraft := (@ensures_draftTable .frail host path dir memtable capacity number sound home).mono
    hswept (fun _ _ h => h) fun _ last h => hswept last h.2
  rcases hdraft.endured_bind ((brittle_draftTable _ _ _ _).settles host) run with
    ⟨herror, hlast⟩ | ⟨summary, finished, drafted, hrest⟩
  · exact Or.inr ⟨herror, hlast⟩
  rcases Action.endures_bind hrest with ⟨e, rfl, hfirst⟩ | ⟨_, renamed, hfirst, hopen⟩
  · rcases rename_drafted_endured drafted small hfirst with ⟨hok, _⟩ | ⟨_, rfl⟩
    · cases hok
    · exact Or.inr ⟨⟨e, rfl⟩, hswept _ drafted.toTouched⟩
  rcases rename_drafted_endured drafted small hfirst with
    ⟨_, hshort, hadded, hnames⟩ | ⟨⟨_, he⟩, _⟩
  swap
  · cases he
  obtain ⟨_, id, _, hview⟩ := hadded.added
  have hfile := View.file?_of_eq_put hview
  have hwell := drafted.wellFormed short
  -- What was renamed can be opened: its path is short enough, and its file is whole.
  rcases Action.endures_bind hopen with ⟨e, _, hstart⟩ | ⟨table, opened, hstart, hdone⟩
  · obtain ⟨_, hok, _⟩ := table_start_endured hadded.sound hnames hshort hfile hwell hstart
    cases hok
  obtain ⟨_, hok, hlayout, hpath, hhandle, rfl⟩ :=
    table_start_endured hadded.sound hnames hshort hfile hwell hstart
  cases hok
  cases hdone
  refine Or.inl ⟨_, rfl, hadded, ⟨small, hwell, hlayout, ?_⟩, hpath⟩
  rw [hhandle]
  exact hfile

/-- What a write-out leaves that can be read back: the memtable as the newest table, or the tables
from before. Its number is used up, unless the memtable is empty. -/
inductive WroteOut (stack : TableStack) (v : View) (dir : Location) (entries : List TableEntry) :
    Except Error Table.Summary → TableStack → Host → Prop where
  | written {summary : Table.Summary} {table : Table} {after : Host} :
      Added v dir stack.nextId.toNat entries after →
      Volume.ReadBy ⟨stack.nextId.toNat, entries⟩ after.view dir stack.directory table →
      WroteOut stack v dir entries (.ok summary)
        { stack with tables := table :: stack.tables, nextId := stack.nextId + 1 } after
  | failed {e : Error} {nextId : UInt64} {after : Host} :
      nextId = stack.nextId ∨ nextId = stack.nextId + 1 → after.Swept v dir →
      WroteOut stack v dir entries (.error e) { stack with nextId } after

theorem flush_wroteOut {stack stack' : TableStack} {result : Except Error Table.Summary}
    (sound : host.Sound) (home : host.view.ending stack.directory = dir)
    (short : ∀ entry ∈ memtable.toList, entry.1.length < Bytes.fieldSize 4)
    (run : (stack.flush memtable).Endures Sighted host (result, stack') after) :
    WroteOut stack host.view dir memtable.toList result stack' after := by
  unfold flush at run
  split at run
  · cases run
    exact .failed (Or.inl rfl) ⟨sound, .refl _ _⟩
  obtain ⟨written, between, hwrite, hrest⟩ := run.of_bind
  rcases writeTable_endured sound home stack.nextId.toNat_lt short hwrite with
    ⟨⟨summary, table⟩, rfl, hadded, hread⟩ | ⟨⟨e, rfl⟩, hswept⟩
  · cases hrest
    exact .written hadded hread
  · cases hrest
    exact .failed (Or.inr rfl) hswept

/-! ## The tables that were written -/

/-- A directory holds the files of some tables, newest first, under their proper names, and no other
file with the name of a table. No table has the last number. -/
structure Archived (v : View) (dir : Location) (volumes : List Volume) : Prop where
  descending : volumes.Pairwise (fun newer older => older.id < newer.id)
  id_lt : ∀ volume ∈ volumes, volume.id + 1 < UInt64.size
  wellFormed : ∀ volume ∈ volumes, Table.WellFormed volume.entries
  file : ∀ volume ∈ volumes,
    ∃ id, v.file? (dir ++ [fileName volume.id]) = some (id, Table.image volume.entries)
  named : ∀ name id, nameKind name = .table id → (v.file? (dir ++ [name])).isSome →
    ∃ volume ∈ volumes, volume.id = id ∧ name = fileName id

namespace Archived

theorem lt (h : Archived v dir volumes) (mem : volume ∈ volumes) : volume.id < UInt64.size :=
  Nat.lt_of_succ_lt (h.id_lt volume mem)

theorem numbered_iff (h : Archived v dir volumes) {id : Nat} :
    Numbered v dir id ↔ id ∈ volumes.map (·.id) := by
  rw [List.mem_map]
  constructor
  · rintro ⟨name, hkind, hfile⟩
    obtain ⟨volume, hmem, hid, _⟩ := h.named name id hkind hfile
    exact ⟨volume, hmem, hid⟩
  · rintro ⟨volume, hmem, rfl⟩
    obtain ⟨owner, hfile⟩ := h.file volume hmem
    exact numbered_of_file? (h.lt hmem) (by rw [hfile]; rfl)

theorem proper (h : Archived v dir volumes) : Proper v dir := by
  intro name id hkind hfile
  obtain ⟨_, _, _, hname⟩ := h.named name id hkind hfile
  exact hname

/-- A directory without tables. -/
theorem of_vacant (vacant : ∀ id, ¬ Numbered v dir id) : Archived v dir [] :=
  ⟨.nil, by simp, by simp, by simp,
    fun name id hkind hfile => absurd ⟨name, hkind, hfile⟩ (vacant id)⟩

/-- What happens to other files does not matter. -/
theorem congr (h : Archived v dir volumes)
    (same : ∀ name id, nameKind name = .table id →
      w.file? (dir ++ [name]) = v.file? (dir ++ [name])) : Archived w dir volumes where
  descending := h.descending
  id_lt := h.id_lt
  wellFormed := h.wellFormed
  file volume hmem := by
    rw [same _ volume.id (nameKind_fileName (h.lt hmem))]
    exact h.file volume hmem
  named name id hkind hfile := h.named name id hkind (by rwa [← same name id hkind])

/-- Drafts do not matter. -/
theorem swept (h : Archived v dir volumes) (same : v.Swept w dir) : Archived w dir volumes :=
  h.congr fun _ _ => same.file?_table

/-- A new file gets the next name. -/
theorem add {owner : Nat} (h : Archived v dir volumes)
    (fresh : ∀ older ∈ volumes, older.id < volume.id) (small : volume.id + 1 < UInt64.size)
    (wellFormed : Table.WellFormed volume.entries)
    (hview : w = v.put (dir ++ [fileName volume.id]) (some (owner, Table.image volume.entries))) :
    Archived w dir (volume :: volumes) where
  descending := List.pairwise_cons.2 ⟨fresh, h.descending⟩
  id_lt := List.forall_mem_cons.2 ⟨small, h.id_lt⟩
  wellFormed := List.forall_mem_cons.2 ⟨wellFormed, h.wellFormed⟩
  file := by
    refine List.forall_mem_cons.2 ⟨⟨owner, View.file?_of_eq_put hview⟩, fun older hmem => ?_⟩
    have hne : dir ++ [fileName older.id] ≠ dir ++ [fileName volume.id] :=
      fileName_ne_of_ne (h.numbered_iff.2 (List.mem_map_of_mem hmem)) (Nat.lt_of_succ_lt small)
        (Nat.ne_of_lt (fresh older hmem))
    rw [hview, View.put_file?_of_ne _ _ hne]
    exact h.file older hmem
  named name id hkind hfile := by
    by_cases heq : name = fileName volume.id
    · rw [heq, nameKind_fileName (Nat.lt_of_succ_lt small)] at hkind
      cases hkind
      exact ⟨volume, by simp, rfl, heq⟩
    · rw [hview, View.put_file?_of_ne _ _ (by simpa using heq)] at hfile
      obtain ⟨older, hmem, hid, hname⟩ := h.named name id hkind hfile
      exact ⟨older, List.mem_cons_of_mem _ hmem, hid, hname⟩

/-- The tables that are found are the ones that were written, in the same order. -/
theorem ids_eq (h : Archived v dir volumes) (stocked : Stocked tables v dir ids) :
    ids = volumes.map (·.id) := by
  refine eq_of_descending (stocked.single h.proper) stocked.descending
    (List.pairwise_map.2 h.descending) fun id => ?_
  rw [← stocked.full, h.numbered_iff]

end Archived

theorem forall₂_readBy_congr
    (h : List.Forall₂ (fun table volume => volume.ReadBy v dir path table) tables volumes)
    (same : ∀ volume ∈ volumes,
      w.file? (dir ++ [fileName volume.id]) = v.file? (dir ++ [fileName volume.id])) :
    List.Forall₂ (fun table volume => volume.ReadBy w dir path table) tables volumes := by
  induction h with
  | nil => exact .nil
  | cons hfirst _ ih =>
    obtain ⟨hvolume, hrest⟩ := List.forall_mem_cons.1 same
    exact .cons (hfirst.congr hvolume) (ih hrest)

/-- Readers on the files of volumes keep what the image of each says. -/
theorem forall₂_readBy (sound : host.Sound) (small : ∀ volume ∈ volumes, volume.id < UInt64.size)
    (wellFormed : ∀ volume ∈ volumes, Table.WellFormed volume.entries)
    (file : ∀ volume ∈ volumes, ∃ id,
      host.view.file? (dir ++ [fileName volume.id]) = some (id, Table.image volume.entries))
    (shown : Displays tables host.view dir (volumes.map (·.id)))
    (paths : tables.map (·.path) = volumes.map fun volume => path.child (fileName volume.id)) :
    List.Forall₂ (fun table volume => volume.ReadBy host.view dir path table) tables volumes := by
  induction volumes generalizing tables with
  | nil =>
    cases shown
    exact .nil
  | cons volume volumes ih =>
    obtain ⟨hsmall, hsmalls⟩ := List.forall_mem_cons.1 small
    obtain ⟨hwell, hwells⟩ := List.forall_mem_cons.1 wellFormed
    obtain ⟨⟨owner, hfile⟩, hfiles⟩ := List.forall_mem_cons.1 file
    cases shown with
    | @cons table _ tables _ hfirst hrest =>
      obtain ⟨hpath, hpaths⟩ := List.cons.inj paths
      obtain ⟨bytes, hlayout, hbytes⟩ := hfirst
      obtain rfl : bytes = Table.image volume.entries :=
        congrArg Prod.snd (Option.some.inj (hbytes.symm.trans hfile))
      have hsize : (Table.image volume.entries).length < Bytes.fieldSize 8 :=
        Nat.lt_of_le_of_lt (sound.length_le hfile) (by decide)
      rw [Table.layout?_image hwell hsize] at hlayout
      exact .cons ⟨⟨hsmall, hwell, (Option.some.inj hlayout).symm, hbytes⟩, hpath⟩
        (ih hsmalls hwells hfiles hrest hpaths)

/-! ## Runs -/

/-- The open tables of a directory are some tables, in the same order, and the next number is larger
than theirs. -/
structure Ranked (stack : TableStack) (v : View) (dir : Location) (volumes : List Volume) :
    Prop where
  readers : List.Forall₂ (fun table volume => volume.ReadBy v dir stack.directory table)
    stack.tables volumes
  next : ∀ volume ∈ volumes, volume.id < stack.nextId.toNat

theorem Ranked.congr {stack : TableStack} (h : stack.Ranked v dir volumes)
    (same : ∀ volume ∈ volumes,
      w.file? (dir ++ [fileName volume.id]) = v.file? (dir ++ [fileName volume.id])) :
    stack.Ranked w dir volumes :=
  ⟨forall₂_readBy_congr h.readers same, h.next⟩

/-- A host, the open tables if the directory is open, and what was written out so far, newest
first. -/
structure Stage where
  host : Host
  stack? : Option TableStack
  written : List Volume

/-- A step of a run on a directory. Calls may be refused while it is opened and read. While it is
written to, all calls may be refused but those that look at the new file. A memtable is written out
under the number that is the next one. The lengths of its keys fit the 4 bytes that they have in a
table (`short`): the log takes no longer keys, see `Memtable.Carried.wellFormed`. The last number is
not used (`free`). -/
inductive Step (path : Path) : Stage → Stage → Prop where
  | opened {may : Host → Call → Prop} {capacity : Nat} {host after : Host} {stack : TableStack}
      {written : List Volume} :
      (start path capacity).run.Endures may host (.ok stack) after →
      Step path ⟨host, none, written⟩ ⟨after, some stack, written⟩
  | unopened {may : Host → Call → Prop} {capacity : Nat} {host after : Host} {e : Error}
      {written : List Volume} :
      (start path capacity).run.Endures may host (.error e) after →
      Step path ⟨host, none, written⟩ ⟨after, none, written⟩
  | flushed {host after : Host} {stack stack' : TableStack} {memtable : Memtable}
      {summary : Table.Summary} {written : List Volume} :
      (short : ∀ entry ∈ memtable.toList, entry.1.length < Bytes.fieldSize 4) →
      (free : stack.nextId.toNat + 1 < UInt64.size) →
      (stack.flush memtable).Endures Sighted host (.ok summary, stack') after →
      Step path ⟨host, some stack, written⟩
        ⟨after, some stack', ⟨stack.nextId.toNat, memtable.toList⟩ :: written⟩
  | unflushed {host after : Host} {stack stack' : TableStack} {memtable : Memtable} {e : Error}
      {written : List Volume} :
      (short : ∀ entry ∈ memtable.toList, entry.1.length < Bytes.fieldSize 4) →
      (free : stack.nextId.toNat + 1 < UInt64.size) →
      (stack.flush memtable).Endures Sighted host (.error e, stack') after →
      Step path ⟨host, some stack, written⟩ ⟨after, some stack', written⟩
  | found {may : Host → Call → Prop} {host after : Host} {stack : TableStack} {key : Bytes}
      {result : Except Error (Option Bytes)} {written : List Volume} :
      (stack.get key).run.Endures may host result after →
      Step path ⟨host, some stack, written⟩ ⟨after, some stack, written⟩
  | scanned {may : Host → Call → Prop} {host after : Host} {stack : TableStack} {start : Bytes}
      {limit : Nat} {result : Except Error (List (List TableEntry))} {written : List Volume} :
      (stack.scan start limit).run.Endures may host result after →
      Step path ⟨host, some stack, written⟩ ⟨after, some stack, written⟩
  | dropped {host : Host} {stack : TableStack} {written : List Volume} :
      Step path ⟨host, some stack, written⟩ ⟨host, none, written⟩

/-- What was written stays, and so does every table file. -/
structure Stage.Keeps (dir : Location) (stage later : Stage) : Prop where
  written : stage.written <:+ later.written
  file : ∀ name id file, nameKind name = .table id →
    stage.host.view.file? (dir ++ [name]) = some file →
    later.host.view.file? (dir ++ [name]) = some file

theorem Stage.Keeps.refl (dir : Location) (stage : Stage) : stage.Keeps dir stage :=
  ⟨List.suffix_rfl, fun _ _ _ _ h => h⟩

theorem Stage.Keeps.trans {stage later last : Stage} (h : stage.Keeps dir later)
    (h' : later.Keeps dir last) : stage.Keeps dir last :=
  ⟨h.written.trans h'.written,
    fun name id file hkind hfile => h'.file name id file hkind (h.file name id file hkind hfile)⟩

/-- The directory holds what was written, and if it is open, that is what is open. -/
structure Stage.InOrder (path : Path) (dir : Location) (stage : Stage) : Prop where
  sound : stage.host.Sound
  home : stage.host.view.ending path = dir
  archived : Archived stage.host.view dir stage.written
  ranked : ∀ stack ∈ stage.stack?,
    stack.directory = path ∧ stack.Ranked stage.host.view dir stage.written

variable {stage next later : Stage}

theorem Stage.Keeps.of_swept {stack? stack?' : Option TableStack} {written : List Volume}
    (swept : after.Swept host.view dir) :
    Stage.Keeps dir ⟨host, stack?, written⟩ ⟨after, stack?', written⟩ := by
  refine ⟨List.suffix_rfl, fun name id file hkind hfile => ?_⟩
  rw [swept.same.file?_table hkind]
  exact hfile

/-- Drafts come and go. -/
theorem Stage.InOrder.swept {stack? stack?' : Option TableStack} {written : List Volume}
    (h : Stage.InOrder path dir ⟨host, stack?, written⟩) (swept : after.Swept host.view dir)
    (ranked : ∀ stack ∈ stack?', stack.directory = path ∧ stack.Ranked after.view dir written) :
    Stage.InOrder path dir ⟨after, stack?', written⟩ where
  sound := swept.sound
  home := by rw [View.ending_congr swept.same.base, h.home]
  archived := h.archived.swept swept.same
  ranked := ranked

/-- Opening a directory that cannot be opened removes drafts at most, and one that can be opened is
opened with the tables that were written. -/
theorem Stage.InOrder.start_endured {result : Except Error TableStack} {written : List Volume}
    (h : Stage.InOrder path dir ⟨host, none, written⟩)
    (run : (start path capacity).run.Endures may host result after) :
    after.Swept host.view dir ∧ ∀ stack, result = .ok stack →
      stack.directory = path ∧ stack.Ranked after.view dir written := by
  have hensures := @ensures_start_any .frail host path dir capacity h.sound h.home
  rcases hensures.endured ((brittle_start path capacity).settles host) run with
    ⟨stack, rfl, hswept, hdirectory, _, ids, stocked, hnext, hpaths⟩ | ⟨⟨e, rfl⟩, hswept⟩
  swap
  · exact ⟨hswept, fun _ hok => by cases hok⟩
  refine ⟨hswept, fun _ hok => ?_⟩
  cases hok
  have harchived := h.archived.swept hswept.same
  -- What is found is known by its numbers, and those are known by their set.
  obtain rfl := harchived.ids_eq stocked
  refine ⟨hdirectory, ?_, fun volume hmem => ?_⟩
  · rw [List.map_map, ← hdirectory] at hpaths
    exact forall₂_readBy hswept.sound (fun _ => harchived.lt) harchived.wellFormed harchived.file
      stocked.shown hpaths
  · -- No table has the last number, so the next one does not begin anew.
    rw [hnext]
    refine stocked.lt_numberBehind ?_ (harchived.numbered_iff.2 (List.mem_map_of_mem hmem))
    rw [harchived.numbered_iff, List.mem_map]
    rintro ⟨last, hlast, hid⟩
    have := harchived.id_lt last hlast
    omega

/-- A new table replaces none of those that were written. -/
theorem Archived.file?_added (h : Archived v dir volumes)
    (fresh : ∀ older ∈ volumes, older.id < number) (small : number < UInt64.size)
    (added : Added v dir number entries after) {name : String} {id : Nat} {file : Nat × Bytes}
    (hkind : nameKind name = .table id) (hfile : v.file? (dir ++ [name]) = some file) :
    after.view.file? (dir ++ [name]) = some file := by
  obtain ⟨w, owner, hswept, hview⟩ := added.added
  obtain ⟨older, hmem, rfl, rfl⟩ := h.named name id hkind (by rw [hfile]; rfl)
  have hne : dir ++ [fileName older.id] ≠ dir ++ [fileName number] :=
    fileName_ne_of_ne (h.numbered_iff.2 (List.mem_map_of_mem hmem)) small
      (Nat.ne_of_lt (fresh older hmem))
  rw [hview, View.put_file?_of_ne _ _ hne, hswept.file?_table hkind]
  exact hfile

/-- A memtable that is written out stands in front of the tables from before. -/
theorem Stage.InOrder.flushed {stack stack' : TableStack} {summary : Table.Summary}
    {written : List Volume} (h : Stage.InOrder path dir ⟨host, some stack, written⟩)
    (short : ∀ entry ∈ memtable.toList, entry.1.length < Bytes.fieldSize 4)
    (roomy : stack.nextId.toNat + 1 < UInt64.size)
    (run : (stack.flush memtable).Endures Sighted host (.ok summary, stack') after) :
    Stage.InOrder path dir
        ⟨after, some stack', ⟨stack.nextId.toNat, memtable.toList⟩ :: written⟩ ∧
      Stage.Keeps dir ⟨host, some stack, written⟩
        ⟨after, some stack', ⟨stack.nextId.toNat, memtable.toList⟩ :: written⟩ := by
  obtain ⟨hdirectory, hranked⟩ := h.ranked stack rfl
  have hhome : host.view.ending stack.directory = dir := by
    rw [hdirectory]
    exact h.home
  have hwrote := flush_wroteOut h.sound hhome short run
  cases hwrote with
  | written hadded hread =>
    have hkept : ∀ name id file, nameKind name = .table id →
        host.view.file? (dir ++ [name]) = some file →
        after.view.file? (dir ++ [name]) = some file := fun _ _ _ =>
      h.archived.file?_added hranked.next stack.nextId.toNat_lt hadded
    have holder : ∀ older ∈ written, after.view.file? (dir ++ [fileName older.id]) =
        host.view.file? (dir ++ [fileName older.id]) := by
      intro older hmem
      obtain ⟨owner, hfile⟩ := h.archived.file older hmem
      rw [hfile]
      exact hkept _ older.id _ (nameKind_fileName (h.archived.lt hmem)) hfile
    -- Between the views from before and after lies one in which only drafts are others.
    obtain ⟨w, owner, hswept, hview⟩ := hadded.added
    have hbase : after.view.base = host.view.base := by
      rw [hview]
      exact hswept.base
    refine ⟨⟨hadded.sound, ?_, ?_, ?_⟩, List.suffix_cons _ _, hkept⟩
    · rw [View.ending_congr hbase]
      exact h.home
    · exact (h.archived.swept hswept).add hranked.next roomy hread.wellFormed hview
    · rintro _ ⟨rfl⟩
      refine ⟨hdirectory, .cons hread (hranked.congr holder).readers, ?_⟩
      rw [toNat_succ roomy]
      refine List.forall_mem_cons.2 ⟨Nat.lt_succ_self _, fun older hmem => ?_⟩
      exact Nat.lt_succ_of_lt (hranked.next older hmem)

/-- A write-out that fails uses up its number, and changes nothing else. -/
theorem Stage.InOrder.unflushed {stack stack' : TableStack} {e : Error} {written : List Volume}
    (h : Stage.InOrder path dir ⟨host, some stack, written⟩)
    (short : ∀ entry ∈ memtable.toList, entry.1.length < Bytes.fieldSize 4)
    (roomy : stack.nextId.toNat + 1 < UInt64.size)
    (run : (stack.flush memtable).Endures Sighted host (.error e, stack') after) :
    after.Swept host.view dir ∧ stack'.directory = path ∧
      stack'.Ranked after.view dir written := by
  obtain ⟨hdirectory, hranked⟩ := h.ranked stack rfl
  have hhome : host.view.ending stack.directory = dir := by
    rw [hdirectory]
    exact h.home
  have hwrote := flush_wroteOut h.sound hhome short run
  cases hwrote with
  | @failed _ nextId _ hnext hswept =>
    have hle : stack.nextId.toNat ≤ nextId.toNat := by
      rcases hnext with rfl | rfl
      · exact Nat.le_refl _
      · rw [toNat_succ roomy]
        exact Nat.le_succ _
    have hsame := hranked.congr fun volume hmem =>
      hswept.same.file?_table (nameKind_fileName (h.archived.lt hmem))
    exact ⟨hswept, hdirectory, hsame.readers,
      fun volume hmem => Nat.lt_of_lt_of_le (hranked.next volume hmem) hle⟩

/-- Every step keeps the order of the tables, and every table file. -/
theorem Step.inOrder (step : Step path stage next) (h : stage.InOrder path dir) :
    next.InOrder path dir ∧ stage.Keeps dir next := by
  cases step with
  | opened run =>
    obtain ⟨hswept, hranked⟩ := h.start_endured run
    refine ⟨h.swept hswept ?_, .of_swept hswept⟩
    rintro stack ⟨rfl⟩
    exact hranked _ rfl
  | unopened run =>
    obtain ⟨hswept, _⟩ := h.start_endured run
    exact ⟨h.swept hswept (by simp), .of_swept hswept⟩
  | flushed short roomy run => exact h.flushed short roomy run
  | unflushed short roomy run =>
    obtain ⟨hswept, hranked⟩ := h.unflushed short roomy run
    refine ⟨h.swept hswept ?_, .of_swept hswept⟩
    rintro stack ⟨rfl⟩
    exact hranked
  | @found _ _ _ stack key _ _ run =>
    rw [run.eq_of_kept (only_get_kept stack key)]
    exact ⟨h, .refl _ _⟩
  | @scanned _ _ _ stack start limit _ _ run =>
    rw [run.eq_of_kept (only_scan_kept stack start limit)]
    exact ⟨h, .refl _ _⟩
  | dropped =>
    have hswept : Host.Swept _ _ dir := ⟨h.sound, .refl _ _⟩
    exact ⟨h.swept hswept (by simp), .of_swept hswept⟩

/-- A run keeps the order of the tables, and every table file. -/
theorem run_inOrder (run : Relation.ReflTransGen (Step path) stage later)
    (h : stage.InOrder path dir) : later.InOrder path dir ∧ stage.Keeps dir later := by
  -- The order of the tables carries the induction: a step keeps table files only where it holds.
  induction run with
  | refl => exact ⟨h, .refl _ _⟩
  | tail _ step ih =>
    obtain ⟨hlast, hkeeps⟩ := step.inOrder ih.1
    exact ⟨hlast, ih.2.trans hkeeps⟩

/-! ## What the open tables are and answer -/

namespace Ranked

variable {stack again : TableStack}

theorem opened (h : stack.Ranked v dir volumes) :
    Opened stack.tables v (volumes.map (·.entries)) :=
  Serves.opened (h.readers.imp fun _ _ hread => hread.toOpenedBy)

theorem perform_get (h : stack.Ranked host.view dir volumes) (sound : host.Sound) (key : Bytes) :
    (stack.get key).perform host =
      (.ok (Merge.newest (volumes.map (·.entries)) key).join, host) := by
  refine Action.perform_of_ensures ?_
  refine Action.Ensures.bind_of (ensures_findIn sound h.opened key trivial) ?_ fun _ _ h => h
  rintro found _ ⟨rfl, rfl⟩
  exact Action.ensures_pure ⟨rfl, rfl⟩

theorem perform_scan (h : stack.Ranked host.view dir volumes) (sound : host.Sound)
    (start : Bytes) (limit : Nat) :
    (stack.scan start limit).perform host =
      (.ok (volumes.map fun volume => Merge.cut start limit volume.entries), host) := by
  have hscan := Action.perform_of_ensures (ensures_scan sound h.opened start limit trivial)
  rwa [List.map_map] at hscan

/-- Open tables on the same files are the same. -/
theorem tables_eq (h : stack.Ranked v dir volumes) (h' : again.Ranked v dir volumes)
    (same : again.directory = stack.directory) : again.tables = stack.tables := by
  have hunique : Relator.LeftUnique fun table volume =>
      Volume.ReadBy volume v dir stack.directory table :=
    fun _ _ _ hread hread' => hread.unique hread'
  have hreaders := h'.readers
  rw [same] at hreaders
  exact List.left_unique_forall₂' hunique hreaders h.readers

end Ranked

/-- What a directory holds, and what is open of it, after a run. -/
structure Stage.ByRecency (path : Path) (dir : Location) (stage : Stage) : Prop where
  archived : Archived stage.host.view dir stage.written
  next : ∀ stack ∈ stage.stack?, ∀ id, Numbered stage.host.view dir id → id < stack.nextId.toNat
  readers : ∀ stack ∈ stage.stack?, List.Forall₂
    (fun table volume => volume.ReadBy stage.host.view dir path table) stack.tables stage.written
  get : ∀ stack ∈ stage.stack?, ∀ key, (stack.get key).perform stage.host =
    (.ok (Merge.newest (stage.written.map (·.entries)) key).join, stage.host)
  scan : ∀ stack ∈ stage.stack?, ∀ start limit, (stack.scan start limit).perform stage.host =
    (.ok (stage.written.map fun volume => Merge.cut start limit volume.entries), stage.host)

theorem Stage.InOrder.byRecency (h : stage.InOrder path dir) : stage.ByRecency path dir where
  archived := h.archived
  next stack hopen id hnumbered := by
    obtain ⟨volume, hmem, rfl⟩ := List.mem_map.1 (h.archived.numbered_iff.1 hnumbered)
    exact (h.ranked stack hopen).2.next volume hmem
  readers stack hopen := by
    obtain ⟨hdirectory, hranked⟩ := h.ranked stack hopen
    rw [← hdirectory]
    exact hranked.readers
  get stack hopen := (h.ranked stack hopen).2.perform_get h.sound
  scan stack hopen := (h.ranked stack hopen).2.perform_scan h.sound

/-- Two stages at which the directory is open with the same tables, which answer alike. -/
structure Stage.Alike (stage later : Stage) (stack again : TableStack) : Prop where
  tables : again.tables = stack.tables
  get : ∀ key, ((again.get key).perform later.host).1 = ((stack.get key).perform stage.host).1
  scan : ∀ start limit, ((again.scan start limit).perform later.host).1 =
    ((stack.scan start limit).perform stage.host).1

/-- As long as nothing is written out, the open tables are the same, however often the directory is
opened again. -/
theorem Stage.InOrder.alike {stack again : TableStack} (h : stage.InOrder path dir)
    (h' : later.InOrder path dir) (keeps : stage.Keeps dir later)
    (hopen : stack ∈ stage.stack?) (hopen' : again ∈ later.stack?)
    (written : later.written = stage.written) : stage.Alike later stack again := by
  obtain ⟨hdirectory, hranked⟩ := h.ranked stack hopen
  obtain ⟨hdirectory', hranked'⟩ := h'.ranked again hopen'
  have hget := hranked'.perform_get h'.sound
  have hscan := hranked'.perform_scan h'.sound
  rw [written] at hranked' hget hscan
  -- The tables that were open first are on files that are still there.
  have hmoved : stack.Ranked later.host.view dir stage.written := by
    refine hranked.congr fun volume hmem => ?_
    obtain ⟨owner, hfile⟩ := h.archived.file volume hmem
    rw [hfile]
    exact keeps.file _ volume.id _ (nameKind_fileName (h.archived.lt hmem)) hfile
  refine ⟨hmoved.tables_eq hranked' (hdirectory'.trans hdirectory.symm), fun key => ?_,
    fun start limit => ?_⟩
  · rw [hget, hranked.perform_get h.sound]
  · rw [hscan, hranked.perform_scan h.sound]

/-- After any run on a directory without tables, the directory holds the tables that were written
and no other ones. Those are open, each once, the newest in front; the next number is larger than
that of any table; and what is open answers as the entries that were written. No table file changes
later, and the directory is opened again with the same tables, which answer alike.

A key of 2 ^ 32 bytes would not fit a table. No frame of a log has room for one, so every memtable
that the log carries can be written out (`Memtable.Carried.wellFormed`). -/
theorem tables_by_recency {initial : Host} (sound : initial.Sound)
    (vacant : ∀ id, ¬ Numbered initial.view (initial.view.ending path) id)
    (run : Relation.ReflTransGen (Step path) ⟨initial, none, []⟩ stage) :
    stage.ByRecency path (initial.view.ending path) ∧
    ∀ later, Relation.ReflTransGen (Step path) stage later →
      stage.Keeps (initial.view.ending path) later ∧
      ∀ stack ∈ stage.stack?, ∀ again ∈ later.stack?, later.written = stage.written →
        stage.Alike later stack again := by
  have hinitial : Stage.InOrder path (initial.view.ending path) ⟨initial, none, []⟩ :=
    ⟨sound, rfl, .of_vacant vacant, by simp⟩
  obtain ⟨hstage, _⟩ := run_inOrder run hinitial
  refine ⟨hstage.byRecency, fun later more => ?_⟩
  obtain ⟨hlater, hkeeps⟩ := run_inOrder more hstage
  exact ⟨hkeeps, fun stack hopen again hopen' => hstage.alike hlater hkeeps hopen hopen'⟩

/-! ## A number that is used again -/

/-- Runs a script on a host that renames no file. -/
def runUnrenamed {α : Type} (script : Script α) (host : Host) : α × Host :=
  script.runAgainst (fun | .rename _ _ => true | _ => false) (.other "Permission denied") host

theorem endures_of_runUnrenamed {α : Type} {script : Script α} {value : α}
    (h : runUnrenamed script host = (value, after)) :
    script.Endures Sighted host value after := by
  refine Script.Endures.of_runAgainst (fun _ call hrefused => ?_) h
  cases call with
  | rename source target => exact id
  | _ => cases hrefused

namespace Step

variable {stack stack' : TableStack} {written : List Volume}

theorem opened_run (h : (start path capacity).run.run host = (.ok stack, after)) :
    Step path ⟨host, none, written⟩ ⟨after, some stack, written⟩ := by
  have hrun : (start path capacity).run.Endures (fun _ _ => False) host _ _ := .of_run h
  exact .opened hrun

theorem flushed_run {summary : Table.Summary}
    (short : ∀ entry ∈ memtable.toList, entry.1.length < Bytes.fieldSize 4)
    (roomy : stack.nextId.toNat + 1 < UInt64.size)
    (h : (stack.flush memtable).run host = ((.ok summary, stack'), after)) :
    Step path ⟨host, some stack, written⟩
      ⟨after, some stack', ⟨stack.nextId.toNat, memtable.toList⟩ :: written⟩ :=
  .flushed short roomy (.of_run h)

theorem unflushed_unrenamed {e : Error}
    (short : ∀ entry ∈ memtable.toList, entry.1.length < Bytes.fieldSize 4)
    (roomy : stack.nextId.toNat + 1 < UInt64.size)
    (h : runUnrenamed (stack.flush memtable) host = ((.error e, stack'), after)) :
    Step path ⟨host, some stack, written⟩ ⟨after, some stack', written⟩ :=
  .unflushed short roomy (endures_of_runUnrenamed h)

end Step

/-- The empty host has no tables. -/
theorem not_numbered_empty (dir : Location) (id : Nat) : ¬ Numbered Host.empty.view dir id := by
  rintro ⟨name, _, hfile⟩
  obtain ⟨file, hfile⟩ := Option.isSome_iff_exists.1 hfile
  obtain ⟨content, hnode, _⟩ := Disk.file?_eq_some_iff.1 hfile
  cases (Disk.node?_empty dir name []).symm.trans hnode

/-- A table is written; the next one is hindered from getting its name. The directory is opened
again, and another memtable is written out under the same number. -/
theorem exists_renumbered :
    ∃ stage reopened last stack again,
      Relation.ReflTransGen (Step (.ofText "/t")) ⟨Host.empty, none, []⟩ stage ∧
      stage.written = [⟨1, [([1], none)]⟩] ∧ stage.stack? = some stack ∧ stack.nextId = 3 ∧
      Relation.ReflTransGen (Step (.ofText "/t")) stage reopened ∧
      reopened.written = stage.written ∧ reopened.stack? = some again ∧ again.nextId = 2 ∧
      Relation.ReflTransGen (Step (.ofText "/t")) reopened last ∧
      last.written = [⟨2, [([1], some [2])]⟩, ⟨1, [([1], none)]⟩] := by
  let path : Path := .ofText "/t"
  let gone : Memtable := Memtable.empty.apply (.delete [1])
  let back : Memtable := Memtable.empty.apply (.put [1] [2])
  obtain ⟨first, opened, hopened, summary, second, written, hwritten, third, failed,
    ⟨e, hfailed⟩, again, reopened, hreopened, summary', fourth, last, hlast, hfirst, hsecond,
    hthird, hagain⟩ :
      ∃ first opened, (start path 8).run.run Host.empty = (.ok first, opened) ∧
      ∃ summary second written,
        (first.flush gone).run opened = ((.ok summary, second), written) ∧
      ∃ third failed,
        (∃ e, runUnrenamed (second.flush back) written = ((.error e, third), failed)) ∧
      ∃ again reopened, (start path 8).run.run failed = (.ok again, reopened) ∧
      ∃ summary fourth last,
        (again.flush back).run reopened = ((.ok summary, fourth), last) ∧
      first.nextId = 1 ∧ second.nextId = 2 ∧ third.nextId = 3 ∧ again.nextId = 2 := by
    refine ⟨_, _, Script.eq_of_succeeded (by decide +kernel), _, _, _,
      Script.eq_of_succeeded_with (by decide +kernel), _, _,
      Script.exists_of_failed_with (by decide +kernel), _, _,
      Script.eq_of_succeeded (by decide +kernel), _, _, _,
      Script.eq_of_succeeded_with (by decide +kernel), by decide +kernel⟩
  have hgone : ∀ entry ∈ gone.toList, entry.1.length < Bytes.fieldSize 4 := by decide
  have hback : ∀ entry ∈ back.toList, entry.1.length < Bytes.fieldSize 4 := by decide
  have hnew : (⟨first.nextId.toNat, gone.toList⟩ : Volume) = ⟨1, [([1], none)]⟩ := by
    rw [hfirst]
    rfl
  have hnewer : (⟨again.nextId.toNat, back.toList⟩ : Volume) = ⟨2, [([1], some [2])]⟩ := by
    rw [hagain]
    rfl
  have hwrite : Step path ⟨opened, some first, []⟩ _ :=
    .flushed_run hgone (by rw [hfirst]; decide) hwritten
  have hfail : Step path ⟨written, some second, [⟨1, [([1], none)]⟩]⟩ _ :=
    .unflushed_unrenamed hback (by rw [hsecond]; decide) hfailed
  have hrewrite : Step path ⟨reopened, some again, [⟨1, [([1], none)]⟩]⟩ _ :=
    .flushed_run hback (by rw [hagain]; decide) hlast
  rw [hnew] at hwrite
  rw [hnewer] at hrewrite
  exact ⟨⟨failed, some third, [⟨1, [([1], none)]⟩]⟩, ⟨reopened, some again, _⟩, _, third, again,
    ((Relation.ReflTransGen.single (.opened_run hopened)).tail hwrite).tail hfail, rfl, rfl, hthird,
    (Relation.ReflTransGen.single .dropped).tail (.opened_run hreopened), rfl, rfl, hagain,
    .single hrewrite, rfl⟩

/-- Two tables are written under the numbers 1 and 2, although the number 2 had been used up before
for a table that did not get its name. -/
theorem tables_by_recency_renumbered :
    ∃ stage reopened last stack again,
      Relation.ReflTransGen (Step (.ofText "/t")) ⟨Host.empty, none, []⟩ stage ∧
      stage.written = [⟨1, [([1], none)]⟩] ∧ stack.nextId = 3 ∧ again.nextId = 2 ∧
      stage.ByRecency (.ofText "/t") (Host.empty.view.ending (.ofText "/t")) ∧
      stage.Alike reopened stack again ∧
      last.written = [⟨2, [([1], some [2])]⟩, ⟨1, [([1], none)]⟩] ∧
      stage.Keeps (Host.empty.view.ending (.ofText "/t")) last := by
  obtain ⟨stage, reopened, last, stack, again, run, hwritten, hopen, hnext, hreopen, hsame,
    hopen', hnext', hrest, hlast⟩ := exists_renumbered
  obtain ⟨hrecent, hlater⟩ := tables_by_recency Host.sound_empty (not_numbered_empty _) run
  exact ⟨stage, reopened, last, stack, again, run, hwritten, hnext, hnext', hrecent,
    (hlater reopened hreopen).2 stack hopen again hopen' hsame, hlast,
    (hlater last (hreopen.trans hrest)).1⟩

end TableStack

end OrderedStore
