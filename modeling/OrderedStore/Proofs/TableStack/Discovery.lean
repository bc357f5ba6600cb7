import Mathlib.Data.List.Pairwise
import OrderedStore.Proofs.TableStack.Found

/-!
# Which files are taken for tables

The name of a file says whether it is a table and which number it has. A number can be written in
several ways: with fewer or more zeros in front, or with a sign. The file that is opened for it has
the one name that the number is given when a table is written. So a directory of tables is opened
as it stands if every table has its proper name, and no table has the last number there is;
otherwise a table is missing, or opened under two numbers, or the numbers begin again. Files with
other names are left alone.

Main definitions:

- `TableStack.Intact`: a directory of which every table can be opened, whatever else it holds.
- `TableStack.Counted`: the numbers that the names in a directory say.
- `TableStack.Faithful`: open tables on exactly the properly named tables of a directory.

Main statement: `TableStack.start_faithful_iff`.
-/

namespace OrderedStore.TableStack

variable {conduct : Conduct} {stop : Host → Prop} {host after other : Host} {v w : View}
  {path : Path} {dir : Location} {ids ids' : List Nat} {stack stack' : TableStack}
  {tables tables' : List Table} {found found' : List (String × FileKind)} {capacity : Nat}

/-- A directory that is there, of which every file with the name of a table opens as one. The image
of a well-formed table does (`Table.layout?_image`). -/
structure Intact (host : Host) (path : Path) (dir : Location) : Prop where
  sound : host.Sound
  there : host.disk.kind? path = some .directory
  home : host.view.ending path = dir
  plain : ∀ name, (host.view.file? (dir ++ [name])).isSome → PlainName name
  opens : ∀ name id owner bytes, nameKind name = .table id →
    host.view.file? (dir ++ [name]) = some (owner, bytes) → (Table.layout? bytes).isSome

theorem Intact.reaches (intact : Intact host path dir) : host.view.Reaches path dir := by
  rw [← intact.home]
  exact Disk.reaches_of_kind? intact.there

/-! ## The numbers that names say -/

/-- The numbers in the names of the tables of a directory, largest first, each as often as it is
said. -/
def Counted (v : View) (dir : Location) (ids : List Nat) : Prop :=
  ∃ found : List (String × FileKind), (found.map Prod.fst).Nodup ∧
    (∀ name kind, (name, kind) ∈ found ↔ v.kind? (dir ++ [name]) = some kind) ∧
    ids = (found.filterMap numberOf?).mergeSort (fun a b => b ≤ a)

namespace Counted

theorem mem_iff (h : Counted v dir ids) {id : Nat} : id ∈ ids ↔ Numbered v dir id := by
  obtain ⟨found, _, full, rfl⟩ := h
  rw [List.mem_mergeSort, numbered_iff_mem full]

theorem descending (h : Counted v dir ids) : ids.Pairwise (fun a b => b ≤ a) := by
  obtain ⟨found, _, _, rfl⟩ := h
  exact pairwise_mergeSort _

theorem nodup_of_proper (h : Counted v dir ids) (proper : Proper v dir) : ids.Nodup := by
  obtain ⟨found, nodup, full, rfl⟩ := h
  exact nodup_mergeSort_numbers nodup full proper

/-- A number that is said once is said by one name. -/
theorem proper_of_nodup (h : Counted v dir ids) (nodup : ids.Nodup)
    (there : ∀ id ∈ ids, (v.file? (dir ++ [fileName id])).isSome) : Proper v dir := by
  intro name id hkind hfile
  have hmem : id ∈ ids := h.mem_iff.2 ⟨name, hkind, hfile⟩
  have hproper := nameKind_fileName (lt_of_nameKind hkind)
  have hthere := there id hmem
  obtain ⟨found, _, full, rfl⟩ := h
  have honce := List.pairwise_filterMap.1 ((List.mergeSort_perm _ _).nodup_iff.1 nodup)
  have : Std.Symm fun entry entry' : String × FileKind => ∀ id, numberOf? entry = some id →
      ∀ id', numberOf? entry' = some id' → id ≠ id' :=
    ⟨fun _ _ hne id' hid' id hid heq => hne id hid id' hid' heq.symm⟩
  -- Two entries that say the number would say it twice.
  by_contra hne
  have hname : (name, FileKind.file) ∈ found := (full name .file).2 (kind?_eq_file_iff.2 hfile)
  have hname' : (fileName id, FileKind.file) ∈ found :=
    (full _ .file).2 (kind?_eq_file_iff.2 hthere)
  exact honce.forall hname hname' (by simpa using hne) id (numberOf?_eq_some_iff.2 ⟨rfl, hkind⟩) id
    (numberOf?_eq_some_iff.2 ⟨rfl, hproper⟩) rfl

/-- Only the names of the tables decide which numbers are said. -/
theorem unique (h : Counted v dir ids) (h' : Counted w dir ids')
    (same : ∀ name id, nameKind name = .table id →
      ((v.file? (dir ++ [name])).isSome ↔ (w.file? (dir ++ [name])).isSome)) : ids = ids' := by
  obtain ⟨found, nodup, full, rfl⟩ := h
  obtain ⟨found', nodup', full', rfl⟩ := h'
  -- Entries that say no number can be left out of both directories.
  have hfilter : ∀ found : List (String × FileKind), found.filterMap numberOf? =
      (found.filter fun entry => (numberOf? entry).isSome).filterMap numberOf? := by
    intro found
    rw [List.filterMap_filter]
    refine List.filterMap_congr fun entry _ => ?_
    cases numberOf? entry <;> rfl
  have hperm : (found.filterMap numberOf?).Perm (found'.filterMap numberOf?) := by
    rw [hfilter found, hfilter found']
    refine List.Perm.filterMap _ ((List.perm_ext_iff_of_nodup
      ((List.Nodup.of_map _ nodup).filter _) ((List.Nodup.of_map _ nodup').filter _)).2 ?_)
    rintro ⟨name, kind⟩
    rw [List.mem_filter, List.mem_filter, full, full']
    refine and_congr_left fun hsome => ?_
    obtain ⟨id, hid⟩ := Option.isSome_iff_exists.1 hsome
    obtain ⟨rfl, hkind⟩ := numberOf?_eq_some_iff.1 hid
    rw [kind?_eq_file_iff, kind?_eq_file_iff]
    exact same name id hkind
  refine List.Perm.eq_of_pairwise ?_ (pairwise_mergeSort _) (pairwise_mergeSort _)
    (((List.mergeSort_perm _ _).trans hperm).trans (List.mergeSort_perm _ _).symm)
  intro a b _ _ hba hab
  exact Nat.le_antisymm hab hba

theorem stocked (h : Counted v dir ids) (shown : Displays tables v dir ids) :
    Stocked tables v dir ids where
  shown := shown
  descending := h.descending
  full _ := h.mem_iff.symm
  single := h.nodup_of_proper

end Counted

/-! ## Opening an intact directory -/

/-- Drafts are removed, and the numbers of all tables collected. -/
theorem ensures_discover_found (sound : host.Sound) (reaches : host.view.Reaches path dir)
    (listing : Listing host.view dir found)
    (plain : ∀ name, (host.view.file? (dir ++ [name])).isSome → PlainName name) :
    (discover path found).Ensures conduct (fun after => after.Swept host.view dir)
      (fun ids after => ids = found.filterMap numberOf? ∧ after.Swept host.view dir)
      (fun _ after => conduct.Excuse ∧ after.Swept host.view dir) host := by
  let fits (rest : List (String × FileKind)) (between : Host) : Prop :=
    between.Swept host.view dir ∧ Listing between.view dir rest ∧
      ∀ name, (between.view.file? (dir ++ [name])).isSome → PlainName name
  refine (ensures_discover_of fits conduct.Excuse ?_ ?_ ⟨⟨sound, .refl _ _⟩, listing, plain⟩).mono
    (fun _ h => h) (fun _ _ h => ⟨h.1, h.2.1⟩) fun _ _ h => h
  · rintro between name rest ⟨hswept, hlisting, hplain⟩ hkind
    have hfile := kind?_eq_file_iff.1 (hlisting.present name .file (by simp))
    obtain ⟨⟨id, bytes⟩, hbytes⟩ := Option.isSome_iff_exists.1 hfile
    refine Action.ensures_removeFile hswept.sound
      ((hswept.same.reaches reaches).names (hplain name hfile)) hbytes hswept
      (fun excuse _ => ⟨excuse, hswept⟩) ?_
    intro after hsound hview
    have hbut : between.view.SameBut after.view (dir ++ [name]) := .of_eq_put hview
    have hafter : after.Swept host.view dir :=
      ⟨hsound, hswept.same.trans (.of_sameBut hbut hkind)⟩
    refine ⟨hafter, hafter, hlisting.rest hbut, fun other hother => hplain other ?_⟩
    by_cases heq : dir ++ [other] = dir ++ [name]
    · rw [hview, heq, View.put_file?_self] at hother
      cases hother
    · rwa [← hbut.file? _ heq]
  · rintro between entry rest ⟨hswept, hlisting, hplain⟩
    exact ⟨hswept, hlisting.rest (.refl _ _), hplain⟩

/-- Tables can be opened unless one is missing under its proper name. -/
theorem ensures_openTables_found (sound : host.Sound) (reaches : host.view.Reaches path dir)
    (same : stop host) (opens : ∀ id ∈ ids, ∀ owner bytes,
      host.view.file? (dir ++ [fileName id]) = some (owner, bytes) →
        (Table.layout? bytes).isSome) :
    (openTables path capacity ids).Ensures conduct stop
      (fun tables after => after = host ∧ Displays tables host.view dir ids ∧
        tables.map (·.path) = ids.map (fun id => path.child (fileName id)))
      (fun _ after => after = host ∧
        (conduct.Excuse ∨ ∃ id ∈ ids, host.view.file? (dir ++ [fileName id]) = none)) host := by
  induction ids with
  | nil => exact Action.ensures_pure ⟨rfl, .nil, rfl⟩
  | cons id ids ih =>
    obtain ⟨hid, hids⟩ := List.forall_mem_cons.1 opens
    have hnames := reaches.names (plainName_fileName id)
    unfold openTables
    cases hfile : host.view.file? (dir ++ [fileName id]) with
    | none =>
      refine Action.Ensures.bind_of (Table.ensures_start_any hnames same) ?_ ?_
      · rintro table _ ⟨_, _, bytes, hsome, _⟩
        cases hfile.symm.trans hsome
      · rintro e _ rfl
        exact ⟨rfl, Or.inr ⟨id, by simp, hfile⟩⟩
    | some file =>
      obtain ⟨owner, bytes⟩ := file
      obtain ⟨layout, hlayout⟩ := Option.isSome_iff_exists.1 (hid owner bytes hfile)
      refine Action.Ensures.bind_of (Table.ensures_start_named sound hnames hfile hlayout same) ?_
        fun _ _ h => ⟨h.1, Or.inl h.2⟩
      rintro table _ ⟨rfl, hpath, hhandle, rfl⟩
      refine Action.Ensures.bind_of (ih hids) ?_ ?_
      · rintro tables _ ⟨rfl, hdisplays, hpaths⟩
        refine Action.ensures_pure ⟨rfl, .cons ⟨bytes, hlayout, ?_⟩ hdisplays, ?_⟩
        · rw [hhandle]
          exact hfile
        · rw [List.map_cons, List.map_cons, hpath, hpaths]
      · rintro e _ ⟨rfl, excuse | ⟨missing, hmem, hnone⟩⟩
        · exact ⟨rfl, Or.inl excuse⟩
        · exact ⟨rfl, Or.inr ⟨missing, List.mem_cons_of_mem _ hmem, hnone⟩⟩

/-- Open tables under all numbers that the names in a directory say, and the number behind them. -/
structure Opens (stack : TableStack) (v : View) (path : Path) (dir : Location) (ids : List Nat) :
    Prop where
  counted : Counted v dir ids
  shown : Displays stack.tables v dir ids
  paths : stack.tables.map (·.path) = ids.map (fun id => path.child (fileName id))
  next : stack.nextId = numberBehind ids

theorem ensures_start_found (intact : Intact host path dir) :
    (start path capacity).Ensures conduct (fun after => after.Swept host.view dir)
      (fun stack after => after.Swept host.view dir ∧ ∃ ids, stack.Opens host.view path dir ids)
      (fun _ after => after.Swept host.view dir ∧ (conduct.Excuse ∨
        ∃ id, Numbered host.view dir id ∧ host.view.file? (dir ++ [fileName id]) = none)) host := by
  have hsame : host.Swept host.view dir := ⟨intact.sound, .refl _ _⟩
  have hexcuse : ¬ conduct.Steady → host.Swept host.view dir ∧ (conduct.Excuse ∨
      ∃ id, Numbered host.view dir id ∧ host.view.file? (dir ++ [fileName id]) = none) :=
    fun unsteady => ⟨hsame, Or.inl (Conduct.excuse_of_not_steady unsteady)⟩
  unfold start
  refine Action.Ensures.bind (Action.ensures_makeDirectories_there intact.sound intact.there ?_
    (fun unsteady _ => hexcuse unsteady) ?_)
  · intro after hsound hview
    refine ⟨hsound, ?_⟩
    rw [hview]
    exact .refl _ _
  refine Action.Ensures.bind (Action.ensures_list_there intact.sound intact.there hsame
    (fun unsteady _ => hexcuse unsteady) ?_)
  intro found nodup full
  rw [intact.home] at full
  refine Action.Ensures.bind_of (ensures_discover_found intact.sound intact.reaches
    ⟨nodup, fun name kind => (full name kind).1⟩ intact.plain) ?_
    fun _ _ h => ⟨h.2, Or.inl h.1⟩
  rintro ids swept ⟨rfl, hswept⟩
  generalize hids : (found.filterMap numberOf?).mergeSort (fun a b => b ≤ a) = ids
  have hcounted : Counted host.view dir ids := ⟨found, nodup, full, hids.symm⟩
  -- The tables are as they were before the drafts were removed.
  have hfile : ∀ id ∈ ids, swept.view.file? (dir ++ [fileName id]) =
      host.view.file? (dir ++ [fileName id]) := fun id hmem =>
    hswept.same.file?_table (nameKind_fileName (hcounted.mem_iff.1 hmem).lt)
  refine Action.Ensures.bind_of (ensures_openTables_found hswept.sound
    (hswept.same.reaches intact.reaches) hswept ?_) ?_ ?_
  · intro id hmem owner bytes hsome
    rw [hfile id hmem] at hsome
    exact intact.opens _ id owner bytes (nameKind_fileName (hcounted.mem_iff.1 hmem).lt) hsome
  · rintro tables _ ⟨rfl, hdisplays, hpaths⟩
    exact Action.ensures_pure ⟨hswept, ids, hcounted,
      hdisplays.congr fun id hmem => (hfile id hmem).symm, hpaths, rfl⟩
  · rintro e _ ⟨rfl, excuse | ⟨id, hmem, hnone⟩⟩
    · exact ⟨hswept, Or.inl excuse⟩
    · rw [hfile id hmem] at hnone
      exact ⟨hswept, Or.inr ⟨id, hcounted.mem_iff.1 hmem, hnone⟩⟩

/-! ## Directories that are opened as they stand -/

/-- Open tables on exactly those files of a directory that have the name which a table is given
when it is written, newest first and each once, and a next number that none of them has. -/
structure Faithful (stack : TableStack) (v : View) (path : Path) (dir : Location)
    (ids : List Nat) : Prop where
  named : ∀ id, id ∈ ids ↔ id < UInt64.size ∧ (v.file? (dir ++ [fileName id])).isSome
  descending : ids.Pairwise (fun newer older => older < newer)
  shown : Displays stack.tables v dir ids
  paths : stack.tables.map (·.path) = ids.map (fun id => path.child (fileName id))
  next : ∀ id ∈ ids, id < stack.nextId.toNat

/-- A stack without the numbers that the host gave its files. -/
def outline (stack : TableStack) : UInt64 × List (Path × Table.Layout) :=
  (stack.nextId, stack.tables.map fun table => (table.path, table.layout))

/-- The files with names of tables are the same, and hold the same bytes. -/
def SameTables (v w : View) (dir : Location) : Prop :=
  ∀ name id, nameKind name = .table id →
    (v.file? (dir ++ [name])).map Prod.snd = (w.file? (dir ++ [name])).map Prod.snd

theorem SameTables.isSome_iff (h : SameTables v w dir) {name : String} {id : Nat}
    (hkind : nameKind name = .table id) :
    (v.file? (dir ++ [name])).isSome ↔ (w.file? (dir ++ [name])).isSome := by
  have heq := congrArg Option.isSome (h name id hkind)
  rw [Option.isSome_map, Option.isSome_map] at heq
  rw [heq]

theorem Displays.isSome (h : Displays tables v dir ids) :
    ∀ id ∈ ids, (v.file? (dir ++ [fileName id])).isSome := by
  induction h with
  | nil => simp
  | cons hfirst _ ih =>
    obtain ⟨bytes, _, hfile⟩ := hfirst
    exact List.forall_mem_cons.2 ⟨by rw [hfile]; rfl, ih⟩

/-- Open tables show one list of numbers only. -/
theorem Displays.ids_eq (sound : host.Sound) (h : Displays tables host.view dir ids)
    (h' : Displays tables host.view dir ids') (small : ∀ id ∈ ids, id < UInt64.size)
    (small' : ∀ id ∈ ids', id < UInt64.size) : ids = ids' := by
  induction h generalizing ids' with
  | nil =>
    cases h'
    rfl
  | cons hfirst _ ih =>
    cases h' with
    | cons hfirst' hrest' =>
      obtain ⟨hid, hids⟩ := List.forall_mem_cons.1 small
      obtain ⟨hid', hids'⟩ := List.forall_mem_cons.1 small'
      obtain ⟨_, _, hfile⟩ := hfirst
      obtain ⟨_, _, hfile'⟩ := hfirst'
      have hname := (entry_inj (sound.place_eq hfile hfile')).2
      rw [fileName_inj hid hid' hname, ih hrest' hids hids']

/-- Tables that are opened on the same bytes have the same layouts. -/
theorem Displays.layouts_eq (h : Displays tables v dir ids) (h' : Displays tables' w dir ids)
    (small : ∀ id ∈ ids, id < UInt64.size) (same : SameTables v w dir) :
    tables.map (·.layout) = tables'.map (·.layout) := by
  induction h generalizing tables' with
  | nil =>
    cases h'
    rfl
  | cons hfirst _ ih =>
    cases h' with
    | cons hfirst' hrest' =>
      obtain ⟨hid, hids⟩ := List.forall_mem_cons.1 small
      obtain ⟨bytes, hlayout, hfile⟩ := hfirst
      obtain ⟨bytes', hlayout', hfile'⟩ := hfirst'
      have heq := same _ _ (nameKind_fileName hid)
      rw [hfile, hfile'] at heq
      obtain rfl : bytes = bytes' := Option.some.inj heq
      rw [List.map_cons, List.map_cons, Option.some.inj (hlayout.symm.trans hlayout'),
        ih hrest' hids]

namespace Opens

theorem small (h : stack.Opens v path dir ids) : ∀ id ∈ ids, id < UInt64.size :=
  fun _ hmem => (h.counted.mem_iff.1 hmem).lt

theorem faithful (h : stack.Opens v path dir ids) (proper : Proper v dir)
    (roomy : ¬ Numbered v dir (UInt64.size - 1)) : stack.Faithful v path dir ids where
  named id := by
    refine ⟨fun hmem => ⟨h.small id hmem, h.shown.isSome id hmem⟩, ?_⟩
    rintro ⟨hsmall, hfile⟩
    exact h.counted.mem_iff.2 (numbered_of_file? hsmall hfile)
  descending := by
    have hnodup := h.counted.nodup_of_proper proper
    exact (h.counted.descending.and hnodup).imp fun hpair =>
      Nat.lt_of_le_of_ne hpair.1 hpair.2.symm
  shown := h.shown
  paths := h.paths
  next id hmem := by
    rw [h.next]
    exact (h.counted.stocked h.shown).lt_numberBehind roomy (h.counted.mem_iff.1 hmem)

theorem proper_of_faithful (sound : host.Sound) (h : stack.Opens host.view path dir ids)
    (faithful : stack.Faithful host.view path dir ids') :
    Proper host.view dir ∧ ¬ Numbered host.view dir (UInt64.size - 1) := by
  obtain rfl := h.shown.ids_eq sound faithful.shown h.small fun id hmem =>
    ((faithful.named id).1 hmem).1
  refine ⟨h.counted.proper_of_nodup (faithful.descending.imp fun hlt => Nat.ne_of_gt hlt)
    h.shown.isSome, fun hlast => ?_⟩
  -- No number is behind the last one.
  have hnext := faithful.next _ (h.counted.mem_iff.2 hlast)
  have hlt := stack.nextId.toNat_lt
  have hsize : UInt64.size = 2 ^ 64 := rfl
  omega

theorem outline_eq (h : stack.Opens v path dir ids) (h' : stack'.Opens w path dir ids')
    (same : SameTables v w dir) : stack.outline = stack'.outline := by
  obtain rfl := h.counted.unique h'.counted fun _ _ hkind => same.isSome_iff hkind
  have hlayouts := h.shown.layouts_eq h'.shown h.small same
  have hzip : ∀ tables : List Table, (tables.map fun table => (table.path, table.layout)) =
      (tables.map (·.path)).zip (tables.map (·.layout)) := fun tables => (List.zip_map' ..).symm
  rw [outline, outline, h.next, h'.next, hzip, hzip, h.paths, h'.paths, hlayouts]

end Opens

/-- The directories agree on whether the tables that their names say are there. -/
theorem SameTables.there_iff (same : SameTables v w dir) :
    (∀ id, Numbered v dir id → (v.file? (dir ++ [fileName id])).isSome) ↔
      ∀ id, Numbered w dir id → (w.file? (dir ++ [fileName id])).isSome := by
  have hnumbered : ∀ id, Numbered v dir id ↔ Numbered w dir id := fun id =>
    exists_congr fun name => and_congr_right fun hkind => same.isSome_iff hkind
  refine forall_congr' fun id => ?_
  rw [hnumbered]
  exact imp_congr_right fun hid => same.isSome_iff (nameKind_fileName hid.lt)

section Intact

variable {result result' : Except Error TableStack} (intact : Intact host path dir)
  (room : (start path capacity).run.FindsRoom host)
  (run : (start path capacity).perform host = (result, after))

include intact room run

/-- Opening an intact directory with room for the names of its tables fails for one cause only. -/
theorem Intact.opens_or :
    after.Swept host.view dir ∧
      ((∃ stack ids, result = .ok stack ∧ stack.Opens host.view path dir ids) ∨
        (∃ e, result = .error e) ∧
          ∃ id, Numbered host.view dir id ∧ host.view.file? (dir ++ [fileName id]) = none) := by
  have hopened := Script.Ensures.run_of_findsRoom
    (@ensures_start_found .ample host path dir capacity intact) room
  unfold Action.perform at run
  rw [run] at hopened
  cases result with
  | ok stack =>
    obtain ⟨hswept, ids, hopens⟩ := hopened
    exact ⟨hswept, Or.inl ⟨stack, ids, rfl, hopens⟩⟩
  | error e =>
    obtain ⟨hswept, excuse | hmissing⟩ := hopened
    · exact absurd excuse Conduct.not_excuse_ample
    · exact ⟨hswept, Or.inr ⟨⟨e, rfl⟩, hmissing⟩⟩

theorem Intact.succeeds_iff :
    (∃ stack, result = .ok stack) ↔
      ∀ id, Numbered host.view dir id → (host.view.file? (dir ++ [fileName id])).isSome := by
  obtain ⟨_, ⟨stack, ids, rfl, hopens⟩ | ⟨⟨e, rfl⟩, missing, hnumbered, hnone⟩⟩ :=
    intact.opens_or room run
  · exact ⟨fun _ id hid => hopens.shown.isSome id (hopens.counted.mem_iff.2 hid),
      fun _ => ⟨stack, rfl⟩⟩
  · constructor
    · rintro ⟨_, hok⟩
      cases hok
    · intro hthere
      have hsome := hthere missing hnumbered
      rw [hnone] at hsome
      cases hsome

theorem Intact.faithful_iff :
    (∃ stack ids, result = .ok stack ∧ stack.Faithful host.view path dir ids) ↔
      Proper host.view dir ∧ ¬ Numbered host.view dir (UInt64.size - 1) := by
  constructor
  · rintro ⟨stack, ids', rfl, faithful⟩
    obtain ⟨_, ⟨stack', ids, hok, hopens⟩ | ⟨⟨_, herror⟩, _⟩⟩ := intact.opens_or room run
    · obtain rfl := Except.ok.inj hok
      exact hopens.proper_of_faithful intact.sound faithful
    · cases herror
  · rintro ⟨proper, roomy⟩
    obtain ⟨_, ⟨stack, ids, rfl, hopens⟩ | ⟨_, missing, ⟨name, hkind, hfile⟩, hnone⟩⟩ :=
      intact.opens_or room run
    · exact ⟨stack, ids, rfl, hopens.faithful proper roomy⟩
    · -- What is said by a proper name stands under it.
      obtain rfl := proper name missing hkind hfile
      rw [hnone] at hfile
      cases hfile

theorem Intact.outline_eq {last : Host} (intact' : Intact other path dir)
    (room' : (start path capacity).run.FindsRoom other)
    (run' : (start path capacity).perform other = (result', last))
    (same : SameTables host.view other.view dir) :
    result.toOption.map outline = result'.toOption.map outline := by
  have hboth : (∃ stack, result = .ok stack) ↔ ∃ stack, result' = .ok stack := by
    rw [intact.succeeds_iff room run, intact'.succeeds_iff room' run', same.there_iff]
  obtain ⟨_, ⟨stack, ids, rfl, hopens⟩ | ⟨⟨e, rfl⟩, _⟩⟩ := intact.opens_or room run
  · obtain ⟨_, ⟨stack', ids', rfl, hopens'⟩ | ⟨⟨e', rfl⟩, _⟩⟩ := intact'.opens_or room' run'
    · exact congrArg some (hopens.outline_eq hopens' same)
    · obtain ⟨_, hok⟩ := hboth.1 ⟨stack, rfl⟩
      cases hok
  · cases result' with
    | error e' => rfl
    | ok stack' =>
      obtain ⟨_, hok⟩ := hboth.2 ⟨stack', rfl⟩
      cases hok

end Intact

/-- An intact directory is opened, and nothing but drafts is touched in it. This succeeds exactly
if a file stands under the proper name of every number that a name says. What is open then are the
tables of the directory, each once and in their order, with a new number behind them, exactly if
every table has its proper name and none has the last number there is. What else stands in the
directory does not matter. -/
theorem start_faithful_iff {result : Except Error TableStack} (intact : Intact host path dir)
    (room : (start path capacity).run.FindsRoom host)
    (run : (start path capacity).perform host = (result, after)) :
    after.Swept host.view dir ∧
      ((∃ stack, result = .ok stack) ↔ ∀ id, Numbered host.view dir id →
        (host.view.file? (dir ++ [fileName id])).isSome) ∧
      ((∃ stack ids, result = .ok stack ∧ stack.Faithful host.view path dir ids) ↔
        Proper host.view dir ∧ ¬ Numbered host.view dir (UInt64.size - 1)) ∧
      ∀ other : Host, Intact other path dir → (start path capacity).run.FindsRoom other →
        SameTables host.view other.view dir →
        result.toOption.map outline =
          ((start path capacity).perform other).1.toOption.map outline :=
  ⟨(intact.opens_or room run).1, intact.succeeds_iff room run, intact.faithful_iff room run,
    fun _ intact' room' same => intact.outline_eq room run intact' room' rfl same⟩

/-- Files in a directory of which those open that may be taken for tables. -/
theorem intact_holding {directory : String} {files : List (String × Bytes)}
    (nodup : (files.map Prod.fst).Nodup)
    (small : ∀ file ∈ files, file.2.length ≤ Disk.sizeLimit)
    (plain : ∀ file ∈ files, PlainName file.1)
    (opens : ∀ file ∈ files, nameKind file.1 = .foreign ∨ nameKind file.1 = .draft ∨
      (Table.layout? file.2).isSome)
    (there : (Host.holding directory files).disk.kind? path = some .directory)
    (home : (Host.holding directory files).view.ending path = [directory]) :
    Intact (Host.holding directory files) path [directory] := by
  obtain ⟨hsound, _, hfiles⟩ := Host.holds nodup small
  refine ⟨hsound, there, home, fun name hfile => ?_, fun name id owner bytes hkind hfile => ?_⟩
  · obtain ⟨⟨owner, bytes⟩, hsome⟩ := Option.isSome_iff_exists.1 hfile
    exact plain _ ((hfiles name).2 owner bytes hsome)
  · rcases opens _ ((hfiles name).2 owner bytes hfile) with hforeign | hdraft | hopens
    · cases hforeign.symm.trans hkind
    · cases hdraft.symm.trans hkind
    · exact hopens

/-- A table that stands beside a draft and a file of somebody else is opened as it was found. -/
theorem start_faithful_iff_beside :
    ∃ host stack ids after,
      host = Host.holding "sst" [("sstable_000007.sst", Table.image [([97], some [49])]),
        ("sstable_000008.sst.tmp", [1]), ("notes.txt", [2])] ∧
      Intact host (.ofText "sst") ["sst"] ∧
      (start (.ofText "sst") 0).run.FindsRoom host ∧
      (start (.ofText "sst") 0).perform host = (.ok stack, after) ∧
      stack.Faithful host.view (.ofText "sst") ["sst"] ids ∧ after.Swept host.view ["sst"] := by
  let files : List (String × Bytes) := [("sstable_000007.sst", Table.image [([97], some [49])]),
    ("sstable_000008.sst.tmp", [1]), ("notes.txt", [2])]
  have hnodup : (files.map Prod.fst).Nodup := by decide
  have hsmall : ∀ file ∈ files, file.2.length ≤ Disk.sizeLimit := by decide +kernel
  have hintact : Intact (Host.holding "sst" files) (.ofText "sst") ["sst"] :=
    intact_holding hnodup hsmall (by decide +kernel) (by decide +kernel) (by decide +kernel)
      (by decide +kernel)
  have hroom : (start (.ofText "sst") 0).run.FindsRoom (Host.holding "sst" files) := by
    decide +kernel
  have hnamed : ∀ name id, nameKind name = .table id →
      ((Host.holding "sst" files).view.file? (["sst"] ++ [name])).isSome →
      name = fileName id ∧ id = 7 := by
    intro name id hkind hfile
    obtain ⟨⟨owner, bytes⟩, hsome⟩ := Option.isSome_iff_exists.1 hfile
    have hmem := ((Host.holds hnodup hsmall).2.2 name).2 owner bytes hsome
    have hkinds : ∀ file ∈ files, nameKind file.1 = .foreign ∨ nameKind file.1 = .draft ∨
        nameKind file.1 = .table 7 ∧ file.1 = fileName 7 := by decide +kernel
    rcases hkinds _ hmem with hforeign | hdraft | ⟨htable, hname⟩
    · cases hforeign.symm.trans hkind
    · cases hdraft.symm.trans hkind
    · cases htable.symm.trans hkind
      exact ⟨hname, rfl⟩
  generalize hrun : (start (.ofText "sst") 0).perform (Host.holding "sst" files) = outcome
  obtain ⟨result, after⟩ := outcome
  obtain ⟨hswept, _, hfaithful, _⟩ := start_faithful_iff hintact hroom hrun
  obtain ⟨stack, ids, rfl, faithful⟩ := hfaithful.2
    ⟨fun name id hkind hfile => (hnamed name id hkind hfile).1, by
      rintro ⟨name, hkind, hfile⟩
      exact absurd (hnamed name _ hkind hfile).2 (by decide)⟩
  exact ⟨_, stack, ids, after, rfl, hintact, hroom, hrun, faithful, hswept⟩

/-- A directory is not opened whose only file is a table under a name with fewer zeros than tables
are written with. -/
theorem not_start_unpadded :
    ∃ host e after, host = Host.holding "sst" [("sstable_1.sst", Table.image [([97], some [49])])] ∧
      Table.WellFormed [([97], some [49])] ∧ Intact host (.ofText "sst") ["sst"] ∧
      (start (.ofText "sst") 0).run.FindsRoom host ∧
      (start (.ofText "sst") 0).perform host = (.error e, after) := by
  let files : List (String × Bytes) := [("sstable_1.sst", Table.image [([97], some [49])])]
  have hwellFormed : Table.WellFormed [([97], some [49])] :=
    ⟨by decide, by decide, by decide⟩
  have hintact : Intact (Host.holding "sst" files) (.ofText "sst") ["sst"] :=
    intact_holding (by decide) (by decide +kernel) (by decide +kernel) (by decide +kernel)
      (by decide +kernel) (by decide +kernel)
  have hroom : (start (.ofText "sst") 0).run.FindsRoom (Host.holding "sst" files) := by
    decide +kernel
  have hfails : ((start (.ofText "sst") 0).perform
      (Host.holding "sst" files)).1.toOption.isSome = false := by decide +kernel
  obtain ⟨e, hfailed⟩ := Script.exists_of_failed hfails
  exact ⟨_, e, _, rfl, hwellFormed, hintact, hroom, hfailed⟩

end OrderedStore.TableStack
