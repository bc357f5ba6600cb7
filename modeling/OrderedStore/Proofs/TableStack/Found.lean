import OrderedStore.Proofs.Host.Entries
import OrderedStore.Proofs.Table.Consulting
import OrderedStore.Proofs.TableStack.Hindrance

/-!
# Directories of tables as they are found

The directory of the tables may hold anything. Opening it removes drafts at most, and the tables
that are open then are those whose names stand there, newest first. Writing a table out leaves a
draft behind at most, or the new table.

Main definitions:

- `TableStack.Numbered`, `TableStack.tableSays`: the tables of a directory and what they say.
- `TableStack.Stocked`: open tables on all tables of a directory.

Main statements: `TableStack.ensures_start_any`, `TableStack.ensures_findIn_any`,
`TableStack.ensures_writeTable_any`.
-/

namespace OrderedStore

/-- Entries at one place have one name in one directory. -/
theorem entry_inj {dir dir' : Location} {name name' : String}
    (h : dir ++ [name] = dir' ++ [name']) : dir = dir' ∧ name = name' :=
  (List.append_inj' h rfl).imp_right List.singleton_inj.1

namespace TableStack

/-- A file with the name of a table stands in a directory. -/
def Numbered (v : View) (dir : Location) (id : Nat) : Prop :=
  ∃ name, nameKind name = .table id ∧ (v.file? (dir ++ [name])).isSome

/-- Every table of a directory has the name that it was given when it was written. -/
def Proper (v : View) (dir : Location) : Prop :=
  ∀ name id, nameKind name = .table id → (v.file? (dir ++ [name])).isSome → name = fileName id

/-- What the table with a number says about a key; `none` if it cannot be read. -/
def tableSays (v : View) (dir : Location) (id : Nat) (key : Bytes) :
    Option (Option (Option Bytes)) :=
  (v.file? (dir ++ [fileName id])).bind fun file => Table.consult? file.2 key

variable {v w : View} {dir place : Location} {name : String} {id : Nat} {key : Bytes}

/-- Tables have 64-bit numbers. -/
theorem lt_of_nameKind (h : nameKind name = .table id) : id < UInt64.size := by
  unfold nameKind at h
  split at h
  · cases h
  split at h
  · cases h
  split at h
  · split at h
    · rename_i stem _ _ _ found hfound
      cases h
      unfold stemId? Decimal.read? at hfound
      split at hfound
      · simpa using (Option.filter_eq_some_iff.1 hfound).2
      · cases hfound
    · cases h
  · cases h

theorem Numbered.lt (h : Numbered v dir id) : id < UInt64.size := by
  obtain ⟨name, hkind, _⟩ := h
  exact lt_of_nameKind hkind

theorem numbered_of_file? (small : id < UInt64.size)
    (h : (v.file? (dir ++ [fileName id])).isSome) : Numbered v dir id :=
  ⟨fileName id, nameKind_fileName small, h⟩

theorem numbered_congr
    (h : ∀ name id, nameKind name = .table id → w.file? (dir ++ [name]) = v.file? (dir ++ [name])) :
    Numbered w dir id ↔ Numbered v dir id := by
  constructor
  · rintro ⟨name, hkind, hfile⟩
    exact ⟨name, hkind, by rwa [← h name id hkind]⟩
  · rintro ⟨name, hkind, hfile⟩
    exact ⟨name, hkind, by rwa [h name id hkind]⟩

theorem proper_congr
    (h : ∀ name id, nameKind name = .table id → w.file? (dir ++ [name]) = v.file? (dir ++ [name])) :
    Proper w dir ↔ Proper v dir := by
  constructor
  · intro proper name id hkind hfile
    exact proper name id hkind (by rwa [h name id hkind])
  · intro proper name id hkind hfile
    exact proper name id hkind (by rwa [← h name id hkind])

/-- A file gets the name of a table. -/
theorem numbered_put {file : Nat × Bytes} (small : id < UInt64.size) {other : Nat} :
    Numbered (v.put (dir ++ [fileName id]) (some file)) dir other ↔
      Numbered v dir other ∨ other = id := by
  have hname := nameKind_fileName small
  constructor
  · rintro ⟨name, hkind, hfile⟩
    by_cases heq : name = fileName id
    · rw [heq, hname] at hkind
      exact Or.inr (by cases hkind; rfl)
    · rw [View.put_file?_of_ne _ _ (by simpa using heq)] at hfile
      exact Or.inl ⟨name, hkind, hfile⟩
  · rintro (⟨name, hkind, hfile⟩ | rfl)
    · refine ⟨name, hkind, ?_⟩
      by_cases heq : dir ++ [name] = dir ++ [fileName id]
      · rw [heq, View.put_file?_self]
        rfl
      · rwa [View.put_file?_of_ne _ _ heq]
    · exact numbered_of_file? small (by rw [View.put_file?_self]; rfl)

/-- Tables with other numbers stand at other places. -/
theorem fileName_ne_of_ne {other : Nat} (hother : Numbered v dir other) (small : id < UInt64.size)
    (hne : other ≠ id) : dir ++ [fileName other] ≠ dir ++ [fileName id] := by
  intro heq
  exact hne (fileName_inj hother.lt small (by simpa using heq))

theorem tableSays_congr (h : w.file? (dir ++ [fileName id]) = v.file? (dir ++ [fileName id]))
    (key : Bytes) : tableSays w dir id key = tableSays v dir id key := by
  rw [tableSays, tableSays, h]

/-! ## Drafts come and go -/

end TableStack

/-- Two views that may differ in drafts of a directory, and in directories that are new. -/
structure View.Swept (v w : View) (dir : Location) : Prop where
  base : w.base = v.base
  locked : w.locked = v.locked
  kept : ∀ place, v.directory place = true → w.directory place = true
  file? : ∀ place, w.file? place = v.file? place ∨
    ∃ name, place = dir ++ [name] ∧ TableStack.nameKind name = .draft

/-- A sound host as in a view, but for drafts of a directory. -/
structure Host.Swept (host : Host) (v : View) (dir : Location) : Prop where
  sound : host.Sound
  same : v.Swept host.view dir

namespace View.Swept

variable {u v w : View} {dir : Location} {name : String}

theorem refl (v : View) (dir : Location) : v.Swept v dir :=
  ⟨rfl, rfl, fun _ h => h, fun _ => Or.inl rfl⟩

theorem trans (h : u.Swept v dir) (h' : v.Swept w dir) : u.Swept w dir where
  base := h'.base.trans h.base
  locked := h'.locked.trans h.locked
  kept place hdir := h'.kept place (h.kept place hdir)
  file? := by
    intro place
    rcases h'.file? place with heq | hdraft
    · rw [heq]
      exact h.file? place
    · exact Or.inr hdraft

theorem of_grown {places : Location → Prop} (h : v.Grown w places) (dir : Location) :
    v.Swept w dir :=
  ⟨h.base, h.locked, h.kept, fun place => Or.inl (congrFun h.file? place)⟩

/-- What happens to a draft. -/
theorem of_sameBut (h : v.SameBut w (dir ++ [name]))
    (draft : TableStack.nameKind name = .draft) : v.Swept w dir where
  base := h.base
  locked := h.locked
  kept _ hdir := by rwa [h.directory]
  file? := by
    intro place
    by_cases heq : place = dir ++ [name]
    · exact Or.inr ⟨name, heq, draft⟩
    · exact Or.inl (h.file? place heq)

/-- A file that is no draft is as before. -/
theorem file?_eq (h : v.Swept w dir) {other : Location}
    (hname : TableStack.nameKind name ≠ .draft) :
    w.file? (other ++ [name]) = v.file? (other ++ [name]) := by
  rcases h.file? (other ++ [name]) with heq | ⟨draft, hplace, hdraft⟩
  · exact heq
  · rw [(entry_inj hplace).2] at hname
    exact absurd hdraft hname

/-- A table is as before. -/
theorem file?_table (h : v.Swept w dir) {other : Location} {id : Nat}
    (hkind : TableStack.nameKind name = .table id) :
    w.file? (other ++ [name]) = v.file? (other ++ [name]) := by
  refine h.file?_eq ?_
  rw [hkind]
  intro h
  cases h

theorem reaches (h : v.Swept w dir) {path : Path} {place : Location}
    (hreaches : v.Reaches path place) : w.Reaches path place :=
  hreaches.mono h.base h.kept

end View.Swept

theorem View.ending_congr {v w : View} (h : w.base = v.base) (path : Path) :
    w.ending path = v.ending path := by
  rw [ending, ending, startOf, startOf, h]

namespace TableStack

variable {conduct : Conduct} {stop : Host → Prop} {host : Host} {v w : View} {path : Path}
  {root dir : Location} {name : String} {id : Nat} {key : Bytes} {ids : List Nat}
  {tables : List Table} {found : List (String × FileKind)} {memtable : Memtable}
  {capacity number : Nat}

theorem numbered_of_swept (h : v.Swept w dir) {other : Location} :
    Numbered w other id ↔ Numbered v other id :=
  numbered_congr fun _ _ => h.file?_table

theorem proper_of_swept (h : v.Swept w dir) {other : Location} :
    Proper w other ↔ Proper v other :=
  proper_congr fun _ _ => h.file?_table

/-! ## Opening -/

/-- Drafts are removed, and the numbers of all tables collected. -/
theorem ensures_discover_any (sound : host.Sound) (home : host.view.ending path = dir)
    (found : List (String × FileKind)) :
    (discover path found).Ensures conduct (fun after => after.Swept host.view dir)
      (fun ids after => ids = found.filterMap numberOf? ∧ after.Swept host.view dir)
      (fun _ after => after.Swept host.view dir) host := by
  let fits (_ : List (String × FileKind)) (between : Host) : Prop := between.Swept host.view dir
  refine (ensures_discover_of fits True ?_ (fun h => h)
    ⟨sound, .refl _ _⟩).mono (fun _ h => h) (fun _ _ h => h) fun _ _ h => h.2
  intro between name _ hswept hkind
  have hhome : between.view.ending path = dir := by
    rw [View.ending_congr hswept.same.base, home]
  refine Action.ensures_removeFile_any hswept.sound hhome hswept
    (fun _ => ⟨trivial, hswept⟩) ?_
  intro after hsound hview
  have hafter : after.Swept host.view dir :=
    ⟨hsound, hswept.same.trans (.of_sameBut (.of_eq_put hview) hkind)⟩
  exact ⟨hafter, hafter⟩

/-- Open tables on the files that some numbers name. -/
def Displays (tables : List Table) (v : View) (dir : Location) (ids : List Nat) : Prop :=
  List.Forall₂ (fun table id => ∃ bytes, Table.layout? bytes = some table.layout ∧
    v.file? (dir ++ [fileName id]) = some (table.handle.id, bytes)) tables ids

theorem Displays.congr (h : Displays tables v dir ids)
    (same : ∀ id ∈ ids, w.file? (dir ++ [fileName id]) = v.file? (dir ++ [fileName id])) :
    Displays tables w dir ids := by
  induction h with
  | nil => exact .nil
  | cons hfirst _ ih =>
    obtain ⟨hid, hids⟩ := List.forall_mem_cons.1 same
    obtain ⟨bytes, hlayout, hfile⟩ := hfirst
    exact .cons ⟨bytes, hlayout, hid.trans hfile⟩ (ih hids)

theorem ensures_openTables_any (reaches : host.view.Reaches path dir) (same : stop host)
    (ids : List Nat) :
    (openTables path capacity ids).Ensures conduct stop
      (fun tables after => Displays tables host.view dir ids ∧
        tables.map (·.path) = ids.map (fun id => path.child (fileName id)) ∧ after = host)
      (fun _ after => after = host) host := by
  induction ids with
  | nil => exact Action.ensures_pure ⟨.nil, rfl, rfl⟩
  | cons id ids ih =>
    refine Action.Ensures.bind_of (Table.ensures_start_any
      (reaches.names (plainName_fileName id)) same) ?_ fun _ _ h => h
    rintro table _ ⟨rfl, hpath, bytes, hfile, hlayout⟩
    refine Action.Ensures.bind_of ih ?_ fun _ _ h => h
    rintro tables _ ⟨hdisplays, hpaths, rfl⟩
    refine Action.ensures_pure ⟨.cons ⟨bytes, hlayout, hfile⟩ hdisplays, ?_, rfl⟩
    rw [List.map_cons, List.map_cons, hpath, hpaths]

/-- Open tables on all tables of a directory, newest first. A number is that of two tables only
where another name than the proper one says it. -/
structure Stocked (tables : List Table) (v : View) (dir : Location) (ids : List Nat) : Prop where
  shown : Displays tables v dir ids
  descending : ids.Pairwise (fun a b => b ≤ a)
  full : ∀ id, Numbered v dir id ↔ id ∈ ids
  single : Proper v dir → ids.Nodup

/-- What happens to other files than tables of the directory does not matter. -/
theorem Stocked.congr (h : Stocked tables v dir ids)
    (same : ∀ name id, nameKind name = .table id →
      w.file? (dir ++ [name]) = v.file? (dir ++ [name])) : Stocked tables w dir ids where
  shown := h.shown.congr fun id hmem =>
    same _ id (nameKind_fileName ((h.full id).2 hmem).lt)
  descending := h.descending
  full id := (numbered_congr same).trans (h.full id)
  single proper := h.single ((proper_congr same).1 proper)

/-- The number behind one that is not the last. -/
theorem toNat_succ {number : UInt64} (roomy : number.toNat + 1 < UInt64.size) :
    (number + 1).toNat = number.toNat + 1 := by
  have hsize : UInt64.size = 2 ^ 64 := rfl
  simp only [UInt64.toNat_add, UInt64.toNat_one]
  omega

/-- The number behind those of some tables. -/
def numberBehind (ids : List Nat) : UInt64 :=
  (ids.head?.map fun id => UInt64.ofNat id + 1).getD 1

/-- There is a number behind those of all tables, unless a table has the last one. -/
theorem Stocked.lt_numberBehind (h : Stocked tables v dir ids)
    (roomy : ¬ Numbered v dir (UInt64.size - 1)) (numbered : Numbered v dir id) :
    id < (numberBehind ids).toNat := by
  have hmem := (h.full id).1 numbered
  cases ids with
  | nil => cases hmem
  | cons head rest =>
    have hhead := (h.full head).2 (List.mem_cons_self ..)
    have hlt := hhead.lt
    -- The numbers descend, so the first is the largest; it is not the last one there is.
    have hne : head ≠ UInt64.size - 1 := by
      rintro rfl
      exact roomy hhead
    have hle : id ≤ head := by
      rcases List.mem_cons.1 hmem with rfl | hrest
      · exact Nat.le_refl _
      · exact (List.pairwise_cons.1 h.descending).1 id hrest
    have hnext : (numberBehind (head :: rest)).toNat = head + 1 := by
      simp only [numberBehind, List.head?_cons, Option.map_some, Option.getD_some,
        UInt64.toNat_add, UInt64.toNat_ofNat']
      have : UInt64.size = 2 ^ 64 := rfl
      have : (1 : UInt64).toNat = 1 := rfl
      omega
    omega

/-- A new table is the newest one. -/
theorem Stocked.added {table : Table} {file : Nat × Bytes} (h : Stocked tables v dir ids)
    (small : number < UInt64.size) (fresh : ∀ other, Numbered v dir other → other < number)
    (hview : w = v.put (dir ++ [fileName number]) (some file))
    (shown : Displays [table] w dir [number]) :
    Stocked (table :: tables) w dir (number :: ids) where
  shown := by
    cases shown with
    | cons hfirst _ =>
      refine .cons hfirst (h.shown.congr fun id hmem => ?_)
      have hid := (h.full id).2 hmem
      rw [hview]
      exact View.put_file?_of_ne _ _ (fileName_ne_of_ne hid small (Nat.ne_of_lt (fresh id hid)))
  descending := by
    refine List.pairwise_cons.2 ⟨fun id hmem => ?_, h.descending⟩
    exact Nat.le_of_lt (fresh id ((h.full id).2 hmem))
  full id := by
    rw [hview, numbered_put small, h.full, List.mem_cons, or_comm]
  single proper := by
    have hne : ∀ id ∈ ids, number ≠ id := fun id hmem =>
      Nat.ne_of_gt (fresh id ((h.full id).2 hmem))
    refine List.nodup_cons.2 ⟨fun hmem => hne number hmem rfl, h.single ?_⟩
    intro name id hkind hfile
    apply proper name id hkind
    -- The new file is there, whatever stood under its name.
    by_cases heq : dir ++ [name] = dir ++ [fileName number]
    · rw [hview, heq, View.put_file?_self]
      rfl
    · rwa [hview, View.put_file?_of_ne _ _ heq]

/-- An entry with the number of a table is the file of one. -/
theorem numbered_entry {kind : FileKind} (stands : v.kind? (dir ++ [name]) = some kind)
    (h : numberOf? (name, kind) = some id) :
    nameKind name = .table id ∧ (v.file? (dir ++ [name])).isSome := by
  obtain ⟨rfl, hkind⟩ := numberOf?_eq_some_iff.1 h
  exact ⟨hkind, kind?_eq_file_iff.1 stands⟩

/-- A full listing shows the tables of a directory. -/
theorem numbered_iff_mem
    (full : ∀ name kind, (name, kind) ∈ found ↔ v.kind? (dir ++ [name]) = some kind) :
    Numbered v dir id ↔ id ∈ found.filterMap numberOf? := by
  rw [List.mem_filterMap]
  constructor
  · rintro ⟨name, hkind, hfile⟩
    refine ⟨(name, .file), (full name .file).2 ?_, by simp only [numberOf?, hkind]⟩
    rw [View.kind?, if_pos hfile]
  · rintro ⟨⟨name, kind⟩, hmem, hid⟩
    exact ⟨name, numbered_entry ((full name kind).1 hmem) hid⟩

/-- What is listed under proper names is listed once. -/
theorem nodup_mergeSort_numbers (nodup : (found.map Prod.fst).Nodup)
    (full : ∀ name kind, (name, kind) ∈ found ↔ v.kind? (dir ++ [name]) = some kind)
    (proper : Proper v dir) :
    ((found.filterMap numberOf?).mergeSort (fun a b => b ≤ a)).Nodup := by
  refine (List.mergeSort_perm _ _).nodup_iff.2 (nodup_numbers nodup ?_)
  rintro ⟨name, kind⟩ hmem id hid
  obtain ⟨hname, hfile⟩ := numbered_entry ((full name kind).1 hmem) hid
  exact proper name id hname hfile

/-- A directory of tables is opened with all tables that it holds. -/
theorem ensures_start_any (sound : host.Sound) (home : host.view.ending path = dir) :
    (start path capacity).Ensures conduct (fun after => after.Swept host.view dir)
      (fun stack after => after.Swept host.view dir ∧ stack.directory = path ∧
        after.view.Reaches path dir ∧
        ∃ ids, Stocked stack.tables after.view dir ids ∧ stack.nextId = numberBehind ids ∧
          stack.tables.map (·.path) = ids.map (fun id => path.child (fileName id)))
      (fun _ after => after.Swept host.view dir) host := by
  unfold start
  refine Action.Ensures.bind (Action.ensures_makeDirectories sound ?_)
  intro made hsound hgrown
  have hmade := View.Swept.of_grown hgrown dir
  have hhome : made.view.ending path = dir := by rw [View.ending_congr hmade.base, home]
  refine ⟨⟨hsound, hmade⟩, ?_, fun _ => ⟨hsound, hmade⟩⟩
  refine Action.Ensures.bind (Action.ensures_list_any hsound hhome ⟨hsound, hmade⟩
    (fun _ => ⟨hsound, hmade⟩) ?_)
  intro hreaches found nodup full
  -- What follows is compared with the host on which the directory was made.
  have hback : ∀ after : Host, after.Swept made.view dir → after.Swept host.view dir :=
    fun after h => ⟨h.sound, hmade.trans h.same⟩
  refine Action.Ensures.bind_of ((ensures_discover_any hsound hhome found).mono
    hback (fun _ _ h => h) fun _ => hback) ?_ fun _ _ h => h
  rintro ids swept ⟨rfl, hswept⟩
  refine Action.Ensures.bind_of (ensures_openTables_any (hswept.same.reaches hreaches)
    (hback swept hswept) _) ?_ ?_
  · rintro tables _ ⟨hdisplays, hpaths, rfl⟩
    refine Action.ensures_pure ⟨hback _ hswept, rfl, hswept.same.reaches hreaches, _,
      ⟨hdisplays, pairwise_mergeSort _, fun id => ?_, fun proper => ?_⟩, rfl, hpaths⟩
    · rw [numbered_of_swept hswept.same, numbered_iff_mem full, List.mem_mergeSort]
    · exact nodup_mergeSort_numbers nodup full ((proper_of_swept hswept.same).1 proper)
  · rintro e _ rfl
    exact hback _ hswept

/-! ## Reading -/

/-- What the newest table that says something about a key says, if those in front of it can be
read. -/
inductive Finds (v : View) (dir : Location) (key : Bytes) :
    List Nat → Option (Option Bytes) → Prop where
  | nil : Finds v dir key [] none
  | here {id : Nat} {ids : List Nat} {value? : Option Bytes} :
      tableSays v dir id key = some (some value?) → Finds v dir key (id :: ids) (some value?)
  | behind {id : Nat} {ids : List Nat} {found : Option (Option Bytes)} :
      tableSays v dir id key = some none → Finds v dir key ids found →
      Finds v dir key (id :: ids) found

/-- Tables that say nothing. -/
theorem finds_none (silent : ∀ id ∈ ids, tableSays v dir id key = some none) :
    Finds v dir key ids none := by
  induction ids with
  | nil => exact .nil
  | cons id ids ih =>
    obtain ⟨hid, hids⟩ := List.forall_mem_cons.1 silent
    exact .behind hid (ih hids)

/-- A table that says something, behind newer ones that say nothing. -/
theorem finds_of_mem {value? : Option Bytes} (mem : id ∈ ids)
    (descending : ids.Pairwise (fun a b => b ≤ a))
    (hread : tableSays v dir id key = some (some value?))
    (newer : ∀ other ∈ ids, id < other → tableSays v dir other key = some none) :
    Finds v dir key ids (some value?) := by
  induction ids with
  | nil => cases mem
  | cons head rest ih =>
    obtain ⟨hhead, hrest⟩ := List.pairwise_cons.1 descending
    obtain ⟨hfirst, hothers⟩ := List.forall_mem_cons.1 newer
    -- Tables in front of this one have larger numbers, and say nothing.
    by_cases heq : id = head
    · exact .here (heq ▸ hread)
    · have hmem : id ∈ rest := (List.mem_cons.1 mem).resolve_left heq
      have hlt : id < head := Nat.lt_of_le_of_ne (hhead id hmem) heq
      exact .behind (hfirst hlt) (ih hmem hrest hothers)

theorem ensures_findIn_any (shown : Displays tables host.view dir ids)
    {said : Option (Option Bytes)} (finds : Finds host.view dir key ids said) (same : stop host) :
    (findIn key tables).Ensures conduct stop (fun found after => found = said ∧ after = host)
      (fun _ _ => False) host := by
  -- The lookup follows the tables, and what is found is read off the first that says something.
  induction shown generalizing said with
  | nil =>
    cases finds
    exact Action.ensures_pure ⟨rfl, rfl⟩
  | @cons table id tables ids hfirst _ ih =>
    obtain ⟨bytes, hlayout, hfile⟩ := hfirst
    have hconsult : tableSays host.view dir id key = table.layout.consult? bytes key := by
      rw [tableSays, hfile, Option.bind_some, Table.consult?, hlayout, Option.bind_some]
    unfold findIn
    by_cases hmight : table.mightContain key = true
    · simp only [hmight, Bool.not_true]
      refine Action.Ensures.bind_of (Table.ensures_find?_any hfile same) ?_ ?_
      · rintro found _ ⟨rfl, hfound⟩
        rw [← hconsult] at hfound
        cases finds with
        | here hvalue =>
          cases hfound.symm.trans hvalue
          exact Action.ensures_pure ⟨rfl, rfl⟩
        | behind hnone hrest =>
          cases hfound.symm.trans hnone
          exact ih hrest
      · rintro e _ ⟨_, hnone⟩
        rw [← hconsult] at hnone
        cases finds with
        | here hvalue => cases hnone.symm.trans hvalue
        | behind hnone' _ => cases hnone.symm.trans hnone'
    · -- A key outside the bounds of a table is not in its index.
      have hmight : table.mightContain key = false := by simpa using hmight
      simp only [hmight, Bool.not_false, if_true]
      have hnone : tableSays host.view dir id key = some none := by
        rw [hconsult, Table.Layout.consult?, Table.find?_offsets_eq_none hmight]
      cases finds with
      | here hvalue => cases hnone.symm.trans hvalue
      | behind _ hrest => exact ih hrest

/-- A lookup leaves every host as it is. -/
theorem only_findIn_kept (key : Bytes) (tables : List Table) :
    (findIn key tables).Only Call.Kept := by
  induction tables with
  | nil => exact Action.only_pure _
  | cons table older ih =>
    unfold findIn
    split
    · exact ih
    · refine (Table.only_find? Call.kept_read table key).bind fun found => ?_
      split
      · exact ih
      · exact Action.only_pure _

theorem only_get_kept (stack : TableStack) (key : Bytes) : (stack.get key).Only Call.Kept :=
  (only_findIn_kept key _).bind fun _ => Action.only_pure _

/-- A scan leaves every host as it is. -/
theorem only_scan_kept (stack : TableStack) (start : Bytes) (limit : Nat) :
    (stack.scan start limit).Only Call.Kept := by
  unfold TableStack.scan
  generalize stack.tables = tables
  induction tables with
  | nil => exact Action.only_pure _
  | cons table older ih =>
    rw [List.mapM_cons]
    exact (Table.only_scan Call.kept_read table start limit).bind fun _ => ih.bind fun _ =>
      Action.only_pure _

/-! ## Writing a table -/

/-- A host whose directory of tables holds a new one. -/
structure Added (v : View) (dir : Location) (number : Nat) (entries : List TableEntry)
    (host : Host) : Prop where
  sound : host.Sound
  added : ∃ w id, v.Swept w dir ∧
    host.view = w.put (dir ++ [fileName number]) (some (id, Table.image entries))

/-- A write-out left a draft at most, or the new table. -/
def SweptOr (v : View) (dir : Location) (number : Nat) (entries : List TableEntry) (host : Host) :
    Prop :=
  host.Swept v dir ∨ Added v dir number entries host

/-- What has been written when a draft is finished. -/
structure Drafted (v : View) (path : Path) (dir : Location) (number : Nat)
    (entries : List TableEntry) (host : Host) : Prop
    extends Host.Touched host v (dir ++ [draftName number]) where
  reaches : v.Reaches path dir
  file : ∃ id, host.view.file? (dir ++ [draftName number]) = some (id, Table.image entries)
  wellFormed : (∀ entry ∈ entries, entry.1.length < Bytes.fieldSize 4) → Table.WellFormed entries

/-- Wherever the writing of a draft ends, it has touched this draft at most. It fails where a call
is refused, and for entries that make up no table. -/
theorem ensures_draftTable (sound : host.Sound) (home : host.view.ending path = dir) :
    (draftTable path capacity number memtable).Ensures conduct
      (fun after => after.Touched host.view (dir ++ [draftName number]))
      (fun _ => Drafted host.view path dir number memtable.toList)
      (fun e after => (e.OfSystem ∨ ¬ Table.WellFormed memtable.toList) ∧
        after.Touched host.view (dir ++ [draftName number])) host := by
  have hsame : host.Touched host.view (dir ++ [draftName number]) := ⟨sound, .refl _ _⟩
  -- A draft that cannot be started leaves all as it was.
  have hblocked : (Table.Draft.start (path.child (draftName number)) capacity).Ensures conduct
        (fun after => after.Touched host.view (dir ++ [draftName number])) (fun _ _ => False)
        (fun _ after => after.Touched host.view (dir ++ [draftName number])) host →
      (draftTable path capacity number memtable).Ensures conduct
        (fun after => after.Touched host.view (dir ++ [draftName number]))
        (fun _ => Drafted host.view path dir number memtable.toList)
        (fun e after => (e.OfSystem ∨ ¬ Table.WellFormed memtable.toList) ∧
          after.Touched host.view (dir ++ [draftName number])) host := fun hstart =>
    Action.Ensures.bind_of (hstart.and_throws (Table.Draft.throws_start _ _))
      (fun _ _ h => h.elim) fun _ _ h => ⟨Or.inl h.1, h.2⟩
  by_cases hreaches : host.view.Reaches path dir
  swap
  · refine hblocked (Action.Ensures.bind (Action.ensures_openFile_lost (Or.inr rfl)
      (fun other hother => hreaches ?_) hsame fun _ => hsame))
    rwa [← home, ← hother.eq_ending]
  have hnames := hreaches.names (plainName_draftName number)
  by_cases hdirectory : host.view.directory (dir ++ [draftName number]) = true
  · exact hblocked (Action.Ensures.bind (Action.ensures_openFile_blocked (Or.inr rfl)
      hnames hdirectory hsame fun _ => hsame))
  unfold draftTable
  refine Action.Ensures.bind_of ((Table.Draft.ensures_start sound hnames
    (by simpa using hdirectory)).and_throws (Table.Draft.throws_start _ _)) ?_
    fun _ _ h => ⟨Or.inl h.1, h.2.2⟩
  intro draft begun hdraft
  refine Action.Ensures.bind_of (Action.ensures_orElseCleanup
    ((Table.Draft.ensures_addAll hdraft).mono (fun _ writing => writing.toTouched)
      (fun _ _ h => h) ?_)) ?_ fun _ _ h => h
  · rintro e after ⟨cause, writing⟩
    rw [List.nil_append] at cause
    refine (Table.Draft.ensures_abandon writing).mono (fun _ h => h) fun _ _ h => ?_
    exact ⟨cause.imp_left And.left, h⟩
  rintro full written ⟨hfull, hwell⟩
  rw [List.nil_append] at hfull hwell
  refine ((Table.Draft.ensures_finish hfull).and_throws (Table.Draft.throws_finish _)).mono
    (fun _ h => h) ?_ fun _ _ h => ⟨Or.inl h.1, h.2.2⟩
  rintro summary finished ⟨htouched, _, hfile⟩
  exact ⟨htouched, hreaches, hfile, hwell .nil⟩

theorem Drafted.names {v : View} {entries : List TableEntry}
    (drafted : Drafted v path dir number entries host) :
    host.view.Names (path.child (draftName number)) (dir ++ [draftName number]) ∧
      host.view.Names (path.child (fileName number)) (dir ++ [fileName number]) := by
  have hreaches := drafted.same.reaches drafted.reaches
  exact ⟨hreaches.names (plainName_draftName number), hreaches.names (plainName_fileName number)⟩

/-- A finished draft gets the name of its table, unless something is in the way. -/
theorem ensures_rename_drafted {v : View} {entries : List TableEntry}
    {ok : Unit → Host → Prop} {err : Error → Host → Prop}
    (drafted : Drafted v path dir number entries host) (small : number < UInt64.size)
    (same : stop host) (failed : ∀ e, err e host)
    (done : ∀ after : Host, ¬ (path.child (fileName number)).Overlong →
      Added v dir number entries after →
      after.view.Names (path.child (fileName number)) (dir ++ [fileName number]) →
      stop after ∧ ok () after) :
    (Action.rename (path.child (draftName number)) (path.child (fileName number))).Ensures conduct
      stop ok err host := by
  obtain ⟨hnames, hnames'⟩ := drafted.names
  obtain ⟨id, hfile⟩ := drafted.file
  by_cases hclear : host.view.directory (dir ++ [fileName number]) = true
  · exact Action.ensures_rename_blocked hnames hnames' hfile hclear same failed
  have hne : dir ++ [draftName number] ≠ dir ++ [fileName number] := by
    intro heq
    exact fileName_ne_draftName small number (by simpa using heq.symm)
  refine Action.ensures_rename drafted.sound hnames hnames' hne hfile (by simpa using hclear) same
    (fun _ => failed) ?_
  intro after hshort hsound hview
  have hdraft : v.SameBut (host.view.put (dir ++ [draftName number]) none)
      (dir ++ [draftName number]) := drafted.same.trans (.put _ _ _)
  refine done after hshort
    ⟨hsound, _, id, .of_sameBut hdraft (nameKind_draftName number), hview⟩ ?_
  exact hnames'.mono (by rw [hview]; rfl) fun place hplace => by rwa [hview]

/-- Wherever the writing of a table ends, it has left a draft at most, or the whole table. -/
theorem ensures_writeTable_any (sound : host.Sound) (home : host.view.ending path = dir)
    (small : number < UInt64.size) :
    (writeTable path capacity number memtable).Ensures conduct
      (SweptOr host.view dir number memtable.toList)
      (fun written after => Added host.view dir number memtable.toList after ∧
        Displays [written.2] after.view dir [number])
      (fun _ => SweptOr host.view dir number memtable.toList) host := by
  have htouched : ∀ after : Host, after.Touched host.view (dir ++ [draftName number]) →
      SweptOr host.view dir number memtable.toList after :=
    fun after h => Or.inl ⟨h.sound, .of_sameBut h.same (nameKind_draftName number)⟩
  rw [writeTable_eq]
  refine Action.Ensures.bind_of ((ensures_draftTable sound home).mono htouched (fun _ _ h => h)
    fun _ after h => htouched after h.2) ?_ fun _ _ h => h
  intro summary finished hdrafted
  have hfinished := htouched _ hdrafted.toTouched
  refine Action.Ensures.bind (ensures_rename_drafted hdrafted small hfinished (fun _ => hfinished)
    ?_)
  intro renamed _ hadded hnames
  refine ⟨Or.inr hadded, ?_⟩
  refine Action.Ensures.bind_of (Table.ensures_start_any hnames (Or.inr hadded)) ?_ ?_
  · rintro table _ ⟨rfl, _, bytes, htable, hlayout⟩
    exact Action.ensures_pure ⟨hadded, .cons ⟨bytes, hlayout, htable⟩ .nil⟩
  · rintro e _ rfl
    exact Or.inr hadded

/-- What a write-out leaves, whatever stands in the directory. -/
inductive Flushed (stack : TableStack) (v : View) (dir : Location) (entries : List TableEntry) :
    Except Error Table.Summary → TableStack → Host → Prop where
  | written {summary : Table.Summary} {table : Table} {host : Host} :
      Added v dir stack.nextId.toNat entries host →
      Displays [table] host.view dir [stack.nextId.toNat] →
      Flushed stack v dir entries (.ok summary)
        { stack with tables := table :: stack.tables, nextId := stack.nextId + 1 } host
  | failed {e : Error} {host : Host} :
      SweptOr v dir stack.nextId.toNat entries host →
      Flushed stack v dir entries (.error e) { stack with nextId := stack.nextId + 1 } host

/-- A write-out may be hindered anywhere, and by whatever stands in the directory. -/
theorem flush_endured_any {may : Host → Call → Prop} {after : Host} {stack stack' : TableStack}
    {result : Except Error Table.Summary} (sound : host.Sound)
    (home : host.view.ending stack.directory = dir) (nonempty : memtable.isEmpty = false)
    (run : (stack.flush memtable).Endures may host (result, stack') after) :
    Flushed stack host.view dir memtable.toList result stack' after := by
  unfold flush at run
  simp only [nonempty] at run
  obtain ⟨written, between, hwrite, hrest⟩ := run.of_bind
  have hensures := @ensures_writeTable_any .frail _ _ _ memtable stack.capacity _ sound home
    stack.nextId.toNat_lt
  rcases hensures.endured ((brittle_writeTable _ _ _ _).settles host) hwrite with
    ⟨⟨summary, table⟩, rfl, hadded, hdisplays⟩ | ⟨⟨e, rfl⟩, hswept⟩
  · cases hrest
    exact .written hadded hdisplays
  · cases hrest
    exact .failed hswept

end TableStack

end OrderedStore
