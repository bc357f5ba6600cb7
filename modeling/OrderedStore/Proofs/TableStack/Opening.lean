import OrderedStore.Proofs.Host.Directories
import OrderedStore.Proofs.TableStack.Shelf

/-!
# Opening the directory of the tables

The directory is made if it is missing, drafts that were left behind are removed, and the tables are
opened in the order of their numbers. Wherever this ends, the tables are those from before.

Main statement: `TableStack.ensures_start`.
-/

namespace OrderedStore.TableStack

variable {conduct : Conduct} {stop : Host → Prop} {host : Host} {v : View} {path : Path}
  {dir : Location} {volumes : List Volume} {found : List (String × FileKind)}

/-- A sound host as in a view, but for the directory of the tables, which holds the given ones. -/
structure Kept (v : View) (dir : Location) (volumes : List Volume) (host : Host) : Prop where
  sound : host.Sound
  same : v.SameOutside host.view dir
  shelves : Shelves host.view dir volumes

/-! ## Collecting the tables -/

/-- The number of the table that an entry of the directory is. -/
def numberOf? : String × FileKind → Option Nat
  | (name, .file) =>
    match nameKind name with
    | .table id => some id
    | _ => none
  | (_, .directory) => none

/-- A number is said by the name of a file. -/
theorem numberOf?_eq_some_iff {entry : String × FileKind} {id : Nat} :
    numberOf? entry = some id ↔ entry.2 = .file ∧ nameKind entry.1 = .table id := by
  obtain ⟨name, _ | _⟩ := entry
  · cases hkind : nameKind name <;> simp [numberOf?, hkind]
  · simp [numberOf?]

theorem kind?_eq_file_iff {place : Location} :
    v.kind? place = some .file ↔ (v.file? place).isSome := by
  unfold View.kind?
  split
  · simp [*]
  · split <;> simp [*]

/-- Entries of the directory, each name once. -/
structure Listing (v : View) (dir : Location) (found : List (String × FileKind)) : Prop where
  nodup : (found.map Prod.fst).Nodup
  present : ∀ name kind, (name, kind) ∈ found → v.kind? (dir ++ [name]) = some kind

/-- What happens to an entry that was looked at does not matter for the others. -/
theorem Listing.rest {w : View} {name : String} {kind : FileKind}
    (listing : Listing v dir ((name, kind) :: found)) (same : v.SameBut w (dir ++ [name])) :
    Listing w dir found := by
  obtain ⟨hname, hnodup⟩ := List.nodup_cons.1 listing.nodup
  refine ⟨hnodup, fun other kind hother => ?_⟩
  have hne : dir ++ [other] ≠ dir ++ [name] := by
    intro heq
    refine hname (List.mem_map.2 ⟨(other, kind), hother, ?_⟩)
    simpa using heq
  rw [← listing.present other kind (List.mem_cons_of_mem _ hother), View.kind?, View.kind?,
    same.file? _ hne, same.directory]

/-- An entry of the directory is a draft or a table. -/
theorem Shelves.entry_cases (h : Shelves v dir volumes) {name : String} {kind : FileKind}
    (hkind : v.kind? (dir ++ [name]) = some kind) :
    kind = .file ∧ ∃ id bytes, v.file? (dir ++ [name]) = some (id, bytes) ∧
      ((∃ number, name = draftName number) ∨ ∃ volume ∈ volumes, name = fileName volume.id) := by
  unfold View.kind? at hkind
  rw [h.flat] at hkind
  cases hfile : v.file? (dir ++ [name]) with
  | none => simp [hfile] at hkind
  | some file =>
    obtain ⟨id, bytes⟩ := file
    simp only [hfile, Option.isSome_some, if_true, Option.some.injEq] at hkind
    exact ⟨hkind.symm, id, bytes, rfl, h.rest name id bytes hfile⟩

/-- Drafts are removed, and the numbers of all tables collected. Something is said of the host and
the entries that are still to be looked at, and the removal of a draft keeps it. -/
theorem ensures_discover_of (fits : List (String × FileKind) → Host → Prop) (cause : Prop)
    (remove : ∀ {host name rest}, fits ((name, .file) :: rest) host → nameKind name = .draft →
      (Action.removeFile (path.child name)).Ensures conduct stop (fun _ after => fits rest after)
        (fun _ after => cause ∧ stop after) host)
    (leave : ∀ {host entry rest}, fits (entry :: rest) host → fits rest host)
    (fit : fits found host) :
    (discover path found).Ensures conduct stop
      (fun ids after => ids = found.filterMap numberOf? ∧ fits [] after)
      (fun _ after => cause ∧ stop after) host := by
  induction found generalizing host with
  | nil => exact Action.ensures_pure ⟨rfl, fit⟩
  | cons entry found ih =>
    obtain ⟨name, kind⟩ := entry
    unfold discover
    split
    · rename_i hkind
      have hnone : numberOf? (name, .file) = none := by simp only [numberOf?, hkind]
      rw [List.filterMap_cons_none hnone]
      exact Action.Ensures.bind_of (remove fit hkind) (fun _ _ hrest => ih hrest) fun _ _ h => h
    · rename_i id hkind
      have hsome : numberOf? (name, .file) = some id := numberOf?_eq_some_iff.2 ⟨rfl, hkind⟩
      rw [List.filterMap_cons_some hsome]
      refine Action.Ensures.bind_of (ih (leave fit)) ?_ fun _ _ h => h
      rintro ids after ⟨rfl, hafter⟩
      exact Action.ensures_pure ⟨rfl, hafter⟩
    · rename_i kind _ _ _ htable
      have hnone : numberOf? (name, kind) = none := by
        refine Option.eq_none_iff_forall_ne_some.2 fun id hid => ?_
        obtain ⟨hfile, hkind⟩ := numberOf?_eq_some_iff.1 hid
        exact htable id hfile hkind
      rw [List.filterMap_cons_none hnone]
      exact ih (leave fit)

theorem ensures_discover (kept : Kept v dir volumes host) (reaches : host.view.Reaches path dir)
    (listing : Listing host.view dir found) :
    (discover path found).Ensures conduct (Kept v dir volumes)
      (fun ids after => ids = found.filterMap numberOf? ∧ Kept v dir volumes after ∧
        host.view.SameOutside after.view dir)
      (fun _ after => conduct.Excuse ∧ Kept v dir volumes after) host := by
  let fits (rest : List (String × FileKind)) (between : Host) : Prop :=
    Kept v dir volumes between ∧ host.view.SameOutside between.view dir ∧
      between.view.Reaches path dir ∧ Listing between.view dir rest
  refine (ensures_discover_of fits conduct.Excuse ?_ ?_ ⟨kept, .refl _ _, reaches, listing⟩).mono
    (fun _ h => h) (fun _ _ h => ⟨h.1, h.2.1, h.2.2.1⟩) fun _ _ h => h
  · rintro between name rest ⟨hkept, hsame, hreaches, hlisting⟩ hkind
    obtain ⟨-, id, bytes, hfile, ⟨number, rfl⟩ | ⟨volume, hmem, rfl⟩⟩ :=
      hkept.shelves.entry_cases (hlisting.present name .file (by simp))
    · refine Action.ensures_removeFile hkept.sound
        (hreaches.names (plainName_draftName number)) hfile hkept
        (fun excuse _ => ⟨excuse, hkept⟩) ?_
      intro after hsound hview
      have hbut : between.view.SameBut after.view (dir ++ [draftName number]) := .of_eq_put hview
      have houtside := View.SameOutside.of_sameBut hbut
      have hafter : Kept v dir volumes after :=
        ⟨hsound, hkept.same.trans houtside, hkept.shelves.draft hbut⟩
      exact ⟨hafter, hafter, hsame.trans houtside, hbut.reaches hreaches, hlisting.rest hbut⟩
    · rw [nameKind_fileName (hkept.shelves.id_lt volume hmem)] at hkind
      cases hkind
  · rintro between entry rest ⟨hkept, hsame, hreaches, hlisting⟩
    exact ⟨hkept, hsame, hreaches, hlisting.rest (.refl _ _)⟩

/-- Numbers in descending order. -/
theorem pairwise_mergeSort (ids : List Nat) :
    (ids.mergeSort (fun a b => b ≤ a)).Pairwise (fun a b => b ≤ a) := by
  have h := @List.pairwise_mergeSort _ (fun a b : Nat => decide (b ≤ a))
    (by intro a b c; simpa using fun hab hbc => Nat.le_trans hbc hab)
    (by intro a b; simpa using Nat.le_total b a) ids
  exact h.imp fun hle => of_decide_eq_true hle

/-- Numbers that are listed under their proper names are listed once. -/
theorem nodup_numbers (nodup : (found.map Prod.fst).Nodup)
    (proper : ∀ entry ∈ found, ∀ id, numberOf? entry = some id → entry.1 = fileName id) :
    (found.filterMap numberOf?).Nodup := by
  refine List.pairwise_filterMap.2 ((List.pairwise_map.1 nodup).imp_of_mem ?_)
  intro first second hfirst hsecond hne id hid id' hid' heq
  subst heq
  exact hne ((proper first hfirst id hid).trans (proper second hsecond id hid').symm)

/-- Numbers in descending order are known by their set. -/
theorem eq_of_descending {left right : List Nat} (nodup : left.Nodup)
    (sorted : left.Pairwise (fun a b => b ≤ a)) (descending : right.Pairwise (fun a b => b < a))
    (same : ∀ id, id ∈ left ↔ id ∈ right) : left = right := by
  have hnodup : right.Nodup := descending.imp fun hlt => Nat.ne_of_gt hlt
  have hsorted : right.Pairwise (fun a b => b ≤ a) := descending.imp fun hlt => Nat.le_of_lt hlt
  have hperm : left.Perm right := (List.perm_ext_iff_of_nodup nodup hnodup).2 same
  refine List.Perm.eq_of_pairwise ?_ sorted hsorted hperm
  intro a b _ _ hba hab
  exact Nat.le_antisymm hab hba

/-- The numbers in a full listing, in descending order, are those of the tables. -/
theorem mergeSort_numbers (h : Shelves v dir volumes) (nodup : (found.map Prod.fst).Nodup)
    (full : ∀ name kind, (name, kind) ∈ found ↔ v.kind? (dir ++ [name]) = some kind) :
    (found.filterMap numberOf?).mergeSort (fun a b => b ≤ a) = volumes.map (·.id) := by
  have hentry : ∀ entry ∈ found, ∀ id, numberOf? entry = some id →
      entry.1 = fileName id ∧ id ∈ volumes.map (·.id) := by
    rintro ⟨name, kind⟩ hmem id hid
    obtain ⟨rfl, _, _, _, ⟨number, rfl⟩ | ⟨volume, hvolume, rfl⟩⟩ :=
      h.entry_cases ((full name kind).1 hmem)
    · simp [numberOf?, nameKind_draftName] at hid
    · simp only [numberOf?, nameKind_fileName (h.id_lt volume hvolume), Option.some.injEq] at hid
      subst hid
      exact ⟨rfl, List.mem_map.2 ⟨volume, hvolume, rfl⟩⟩
  have hleft := nodup_numbers nodup fun entry hmem id hid => (hentry entry hmem id hid).1
  refine eq_of_descending ((List.mergeSort_perm _ _).nodup_iff.2 hleft) (pairwise_mergeSort _)
    (List.pairwise_map.2 h.descending) fun id => ?_
  rw [List.mem_mergeSort]
  constructor
  · intro hid
    obtain ⟨entry, hentry', hid⟩ := List.mem_filterMap.1 hid
    exact (hentry entry hentry' id hid).2
  · intro hid
    obtain ⟨volume, hvolume, rfl⟩ := List.mem_map.1 hid
    obtain ⟨owner, hfile⟩ := h.file volume hvolume
    have hmem : (fileName volume.id, .file) ∈ found := by
      rw [full, View.kind?, hfile]
      rfl
    refine List.mem_filterMap.2 ⟨_, hmem, ?_⟩
    simp only [numberOf?, nameKind_fileName (h.id_lt volume hvolume)]

/-! ## Opening the tables -/

theorem ensures_openTables {capacity : Nat} (sound : host.Sound)
    (reaches : host.view.Reaches path dir)
    (small : ∀ volume ∈ volumes, volume.id < UInt64.size)
    (wellFormed : ∀ volume ∈ volumes, Table.WellFormed volume.entries)
    (file : ∀ volume ∈ volumes, ∃ id,
      host.view.file? (dir ++ [fileName volume.id]) = some (id, Table.image volume.entries))
    (same : stop host) :
    (openTables path capacity (volumes.map (·.id))).Ensures conduct stop
      (fun tables after => Serves tables host.view dir volumes ∧ after = host)
      (fun _ after => conduct.Excuse ∧ after = host) host := by
  induction volumes with
  | nil => exact Action.ensures_pure ⟨.nil, rfl⟩
  | cons volume volumes ih =>
    obtain ⟨hsmall, hsmalls⟩ := List.forall_mem_cons.1 small
    obtain ⟨hwell, hwells⟩ := List.forall_mem_cons.1 wellFormed
    obtain ⟨⟨id, hfile⟩, hfiles⟩ := List.forall_mem_cons.1 file
    rw [List.map_cons]
    unfold openTables
    refine Action.Ensures.bind_of (Table.ensures_start sound
      (reaches.names (plainName_fileName volume.id)) hfile hwell same) ?_
      fun _ _ h => ⟨h.1, h.2.2⟩
    rintro table _ ⟨opened, _, hhandle, rfl⟩
    refine Action.Ensures.bind_of (ih hsmalls hwells hfiles) ?_ fun _ _ h => h
    rintro tables _ ⟨hserves, rfl⟩
    refine Action.ensures_pure ⟨.cons ⟨hsmall, hwell, opened.layout, ?_⟩ hserves, rfl⟩
    rw [hhandle]
    exact hfile

/-- The number that follows those of some tables. -/
def numberAfter (volumes : List Volume) : UInt64 :=
  (volumes.head?.map fun volume => UInt64.ofNat volume.id + 1).getD 1

/-- The directory of the tables is opened with the tables that it holds. -/
theorem ensures_start {parent : Path} {root : Location} {name : String} {capacity : Nat}
    (sound : host.Sound) (reaches : host.view.Reaches parent root) (plain : PlainName name)
    (short : name.utf8ByteSize ≤ Disk.nameLimit) (nofile : host.view.file? (root ++ [name]) = none)
    (shelves : Shelves host.view (root ++ [name]) volumes) :
    (start (parent.child name) capacity).Ensures conduct
      (Kept host.view (root ++ [name]) volumes)
      (fun stack after => Kept host.view (root ++ [name]) volumes after ∧
        after.view.directory (root ++ [name]) = true ∧
        Serves stack.tables after.view (root ++ [name]) volumes ∧
        stack.directory = parent.child name ∧ stack.nextId = numberAfter volumes)
      (fun _ after => conduct.Excuse ∧ Kept host.view (root ++ [name]) volumes after) host := by
  have hkept : Kept host.view (root ++ [name]) volumes host := ⟨sound, .refl _ _, shelves⟩
  unfold start
  refine Action.Ensures.bind (Action.ensures_makeDirectories_child sound reaches plain nofile ?_
    (fun excuse _ => ⟨excuse, hkept⟩) ?_)
  · intro after hsound hview
    rw [← hview]
    refine ⟨hsound, .refl _ _, ?_⟩
    rwa [hview]
  · intro after hsound hview
    have hsame : host.view.SameOutside after.view (root ++ [name]) := by
      rw [hview]
      exact .putDirectory _ _
    have hshelves : Shelves after.view (root ++ [name]) volumes := by
      refine shelves.congr ?_ ?_
      · intro other
        rw [hview]
        rfl
      · intro other
        rw [hview]
        exact Function.update_of_ne (by simp) ..
    have hmade : Kept host.view (root ++ [name]) volumes after := ⟨hsound, hsame, hshelves⟩
    have hdir : after.view.directory (root ++ [name]) = true := by
      rw [hview]
      exact Function.update_self ..
    have hreaches := (hsame.reaches reaches).child plain short hdir
    refine ⟨hmade, fun _ => ?_⟩
    refine Action.Ensures.bind (Action.ensures_list hsound
      ((hsame.reaches reaches).names plain) hdir hmade (fun excuse _ => ⟨excuse, hmade⟩) ?_)
    intro found nodup full
    refine Action.Ensures.bind_of (ensures_discover hmade hreaches
      ⟨nodup, fun name kind => (full name kind).1⟩) ?_ fun _ _ h => h
    rintro ids last ⟨rfl, hlast, hcleared⟩
    rw [mergeSort_numbers hshelves nodup full]
    refine Action.Ensures.bind_of (ensures_openTables hlast.sound (hcleared.reaches hreaches)
      hlast.shelves.id_lt hlast.shelves.wellFormed hlast.shelves.file hlast) ?_ ?_
    · rintro tables _ ⟨hserves, rfl⟩
      refine Action.ensures_pure ⟨hlast, hcleared.kept _ hdir, hserves, rfl, ?_⟩
      cases volumes <;> rfl
    · rintro e _ ⟨excuse, rfl⟩
      exact ⟨excuse, hlast⟩

/-- The next number is larger than that of any table, as long as numbers are left. -/
theorem Shelves.numberAfter (h : Shelves v dir volumes) {bound : Nat}
    (small : bound + 1 < UInt64.size) (le : ∀ volume ∈ volumes, volume.id ≤ bound) :
    (∀ volume ∈ volumes, volume.id < (numberAfter volumes).toNat) ∧
      (TableStack.numberAfter volumes).toNat ≤ bound + 1 := by
  cases volumes with
  | nil => exact ⟨by simp, Nat.le_add_left 1 bound⟩
  | cons volume volumes =>
    have hle := le volume (by simp)
    have hnext : (TableStack.numberAfter (volume :: volumes)).toNat = volume.id + 1 := by
      have hsize : UInt64.size = 2 ^ 64 := rfl
      simp only [TableStack.numberAfter, List.head?_cons, Option.map_some, Option.getD_some,
        UInt64.toNat_add, UInt64.toNat_ofNat', UInt64.toNat_one]
      omega
    rw [hnext]
    refine ⟨List.forall_mem_cons.2 ⟨Nat.lt_succ_self _, ?_⟩, by omega⟩
    intro older hmem
    have := (List.pairwise_cons.1 h.descending).1 older hmem
    omega

end OrderedStore.TableStack
