import OrderedStore.Proofs.Engine.Scan
import OrderedStore.Proofs.Log.History
import OrderedStore.Proofs.TableStack.Found

/-!
# Tables that came through the log

A memtable whose entries came through the log is written out under a number that no table of its
directory has, and all table files stay as they are. So as long as all tables were written in this
way, what open tables show came through the log.

Main definitions:

- `TableStack.Furnished`: all tables came through the log.
- `TableStack.Stows`: one more table at most.
- `TableStack.Shelved`: open tables of a directory, and a number that is left for the next one.

Main statements: `TableStack.Stows.of_flushed`, `TableStack.Furnished.stows`,
`TableStack.Shelved.opened`.
-/

namespace OrderedStore.TableStack

variable {u v w : View} {host after : Host} {dir place : Location} {name : String}
  {number count : Nat} {ids : List Nat} {stack stack' : TableStack} {tables : List Table}
  {memtable : Memtable} {result : Except Error Table.Summary}

/-! ## Table files -/

/-- Two views with the same table files. -/
structure TablesKept (v w : View) : Prop where
  base : w.base = v.base
  file? : ∀ place name id, nameKind name = .table id →
    w.file? (place ++ [name]) = v.file? (place ++ [name])

namespace TablesKept

theorem refl (v : View) : TablesKept v v :=
  ⟨rfl, fun _ _ _ _ => rfl⟩

theorem trans (h : TablesKept u v) (h' : TablesKept v w) : TablesKept u w :=
  ⟨h'.base.trans h.base, fun place name id hkind =>
    (h'.file? place name id hkind).trans (h.file? place name id hkind)⟩

theorem of_swept (h : v.Swept w dir) : TablesKept v w :=
  ⟨h.base, fun _ _ _ => h.file?_table⟩

theorem of_sameBut (h : v.SameBut w (dir ++ [name])) (foreign : nameKind name = .foreign) :
    TablesKept v w := by
  refine ⟨h.base, fun other found id hkind => h.file? _ fun heq => ?_⟩
  rw [(entry_inj heq).2, foreign] at hkind
  cases hkind

end TablesKept

/-- The file of a table whose entries came through the log. -/
def Stowed (file : Nat × Bytes) : Prop :=
  ∃ memtable : Memtable, memtable.Carried ∧ file.2 = Table.image memtable.toList

/-- A view in which all tables came through the log, and no table has more than a certain number. -/
def Furnished (v : View) (count : Nat) : Prop :=
  ∀ place name id file, nameKind name = .table id → v.file? (place ++ [name]) = some file →
    id ≤ count ∧ Stowed file

/-- Two views with the same table files, but that a table may be new that has a certain number in a
certain directory and came through the log. -/
structure Stows (v : View) (dir : Location) (number : Nat) (w : View) : Prop where
  base : w.base = v.base
  file? : ∀ place name id, nameKind name = .table id →
    w.file? (place ++ [name]) = v.file? (place ++ [name]) ∨
      place ++ [name] = dir ++ [fileName number] ∧
        ∃ file, w.file? (place ++ [name]) = some file ∧ Stowed file

theorem TablesKept.stows (h : TablesKept v w) (dir : Location) (number : Nat) :
    Stows v dir number w :=
  ⟨h.base, fun place name id hkind => Or.inl (h.file? place name id hkind)⟩

theorem TablesKept.trans_stows (h : TablesKept u v) (h' : Stows v dir number w) :
    Stows u dir number w :=
  ⟨h'.base.trans h.base, fun place name id hkind =>
    (h'.file? place name id hkind).imp_left (·.trans (h.file? place name id hkind))⟩

namespace Stows

theorem trans_same (h : Stows u dir number v) (h' : TablesKept v w) : Stows u dir number w := by
  refine ⟨h'.base.trans h.base, fun place name id hkind => ?_⟩
  rw [h'.file? place name id hkind]
  exact h.file? place name id hkind

theorem of_added (h : Added v dir number memtable.toList host) (carried : memtable.Carried) :
    Stows v dir number host.view := by
  obtain ⟨w, owner, hswept, hview⟩ := h.added
  rw [hview]
  refine ⟨hswept.base, fun place name id hkind => ?_⟩
  by_cases heq : place ++ [name] = dir ++ [fileName number]
  · rw [heq, View.put_file?_self]
    exact Or.inr ⟨rfl, _, rfl, memtable, carried, rfl⟩
  · rw [View.put_file?_of_ne _ _ heq]
    exact Or.inl (hswept.file?_table hkind)

/-- Tables of other numbers stay open. -/
theorem displays (h : Stows v dir number w) (shown : Displays tables v place ids)
    (small : number < UInt64.size) (smalls : ∀ id ∈ ids, id < UInt64.size)
    (apart : place ≠ dir ∨ number ∉ ids) : Displays tables w place ids := by
  refine shown.congr fun id hmem => ?_
  refine (h.file? place _ id (nameKind_fileName (smalls id hmem))).resolve_right fun hnew => ?_
  obtain ⟨hplace, hname⟩ := entry_inj hnew.1
  rcases apart with hne | hfresh
  · exact hne hplace
  · exact hfresh (fileName_inj (smalls id hmem) small hname ▸ hmem)

end Stows

theorem Furnished.congr (h : Furnished v count) (same : TablesKept v w) : Furnished w count := by
  intro place name id file hkind hfile
  rw [same.file? place name id hkind] at hfile
  exact h place name id file hkind hfile

theorem Furnished.stows (h : Furnished v count) (hstows : Stows v dir number w)
    (small : number < UInt64.size) (bound : number ≤ count + 1) : Furnished w (count + 1) := by
  intro place name id file hkind hfile
  rcases hstows.file? place name id hkind with hsame | ⟨hnew, found, hfound, hstowed⟩
  · rw [hsame] at hfile
    obtain ⟨hle, hstowed⟩ := h place name id file hkind hfile
    exact ⟨Nat.le_succ_of_le hle, hstowed⟩
  · obtain rfl := Option.some.inj (hfound.symm.trans hfile)
    rw [(entry_inj hnew).2, nameKind_fileName small] at hkind
    cases hkind
    exact ⟨bound, hstowed⟩

theorem Furnished.succ (h : Furnished v count) : Furnished v (count + 1) :=
  fun place name id file hkind hfile =>
    (h place name id file hkind hfile).imp_left Nat.le_succ_of_le

theorem Furnished.numbered (h : Furnished v count) {id : Nat} (numbered : Numbered v dir id) :
    id ≤ count := by
  obtain ⟨name, hkind, hsome⟩ := numbered
  obtain ⟨file, hfile⟩ := Option.isSome_iff_exists.1 hsome
  exact (h dir name id file hkind hfile).1

/-! ## Open tables -/

/-- Open tables of a directory. The number of the next table is larger than theirs, and there are
enough numbers left. -/
structure Shelved (stack : TableStack) (v : View) (dir : Location) (count : Nat) : Prop where
  home : v.ending stack.directory = dir
  shown : ∃ ids, Displays stack.tables v dir ids ∧ ∀ id ∈ ids, id < stack.nextId.toNat
  next : stack.nextId.toNat ≤ count + 1

/-- What open tables show came through the log. -/
theorem Shelved.opened (h : stack.Shelved host.view dir count) (sound : host.Sound)
    (furnished : Furnished host.view count) :
    ∃ shelf, Opened stack.tables host.view shelf ∧
      ∀ source ∈ shelf, ∀ entry ∈ source, Log.Carried entry := by
  obtain ⟨ids, hshown, hids⟩ := h.shown
  have hsmall : ∀ id ∈ ids, id < UInt64.size := fun id hmem =>
    Nat.lt_trans (hids id hmem) stack.nextId.toNat_lt
  clear hids
  generalize stack.tables = tables at hshown
  induction hshown with
  | nil => exact ⟨[], .nil, by simp⟩
  | @cons table id tables ids hfirst _ ih =>
    obtain ⟨hid, hrest⟩ := List.forall_mem_cons.1 hsmall
    obtain ⟨shelf, hshelf, hcarried⟩ := ih hrest
    obtain ⟨bytes, hlayout, hfile⟩ := hfirst
    obtain ⟨-, memtable, hmemtable, rfl⟩ := furnished _ _ id _ (nameKind_fileName hid) hfile
    have hsize : (Table.image memtable.toList).length < Bytes.fieldSize 8 :=
      Nat.lt_of_le_of_lt (sound.length_le hfile) (by decide)
    rw [Table.layout?_image hmemtable.wellFormed hsize] at hlayout
    refine ⟨memtable.toList :: shelf, .cons ⟨hmemtable.wellFormed, ⟨_, hfile⟩,
      (Option.some.inj hlayout).symm⟩ hshelf, ?_⟩
    exact List.forall_mem_cons.2 ⟨hmemtable, hcarried⟩

/-- What happens in another directory does not matter. -/
theorem Shelved.elsewhere (h : stack.Shelved v dir count) (hstows : Stows v place number w)
    (small : number < UInt64.size) (hne : dir ≠ place) : stack.Shelved w dir (count + 1) where
  home := by rw [View.ending_congr hstows.base, h.home]
  shown := by
    obtain ⟨ids, hshown, hids⟩ := h.shown
    refine ⟨ids, hstows.displays hshown small (fun id hmem => ?_) (Or.inl hne), hids⟩
    exact Nat.lt_trans (hids id hmem) stack.nextId.toNat_lt
  next := Nat.le_succ_of_le h.next

/-! ## Write-outs -/

/-- What becomes of open tables at most: there is one more in front of them, with the next number. A
number may be used up for nothing. -/
structure Advances (stack stack' : TableStack) (v : View) (dir : Location) (w : View) : Prop where
  directory : stack'.directory = stack.directory
  stows : Stows v dir stack.nextId.toNat w
  tables : stack'.tables = stack.tables ∧
      (stack'.nextId = stack.nextId ∨ stack'.nextId = stack.nextId + 1) ∨
    ∃ table, stack'.tables = table :: stack.tables ∧ stack'.nextId = stack.nextId + 1 ∧
      Displays [table] w dir [stack.nextId.toNat]

theorem TablesKept.advances (h : TablesKept v w) (stack : TableStack) (dir : Location) :
    Advances stack stack v dir w :=
  ⟨rfl, h.stows dir _, Or.inl ⟨rfl, Or.inl rfl⟩⟩

theorem TablesKept.trans_advances (h : TablesKept u v) (h' : Advances stack stack' v dir w) :
    Advances stack stack' u dir w :=
  ⟨h'.directory, h.trans_stows h'.stows, h'.tables⟩

theorem Advances.trans_same (h : Advances stack stack' u dir v) (h' : TablesKept v w) :
    Advances stack stack' u dir w := by
  refine ⟨h.directory, h.stows.trans_same h', h.tables.imp_right ?_⟩
  rintro ⟨table, htables, hnext, hshown⟩
  refine ⟨table, htables, hnext, hshown.congr fun id hmem => ?_⟩
  rw [List.mem_singleton.1 hmem]
  exact h'.file? dir _ _ (nameKind_fileName stack.nextId.toNat_lt)

/-- A write-out puts the memtable on the stack, or leaves it at most as a table that is not open. -/
theorem Advances.of_flushed (h : Flushed stack v dir memtable.toList result stack' after)
    (carried : memtable.Carried) : Advances stack stack' v dir after.view := by
  cases h with
  | @written summary table _ hadded hshown =>
    exact ⟨rfl, .of_added hadded carried, Or.inr ⟨table, rfl, rfl, hshown⟩⟩
  | failed hswept =>
    refine ⟨rfl, ?_, Or.inl ⟨rfl, Or.inr rfl⟩⟩
    rcases hswept with hdraft | hadded
    · exact (TablesKept.of_swept hdraft.same).stows dir _
    · exact .of_added hadded carried

theorem Shelved.advances (h : stack.Shelved v dir count) (advances : Advances stack stack' v dir w)
    (enough : count + 2 < UInt64.size) : stack'.Shelved w dir (count + 1) := by
  obtain ⟨ids, hshown, hids⟩ := h.shown
  have hnext := h.next
  have hsucc : (stack.nextId + 1).toNat = stack.nextId.toNat + 1 := toNat_succ (by omega)
  -- The open tables have smaller numbers than the new one, so they stay what they are.
  have hstay : Displays stack.tables w dir ids :=
    advances.stows.displays hshown stack.nextId.toNat_lt
      (fun id hmem => Nat.lt_trans (hids id hmem) stack.nextId.toNat_lt)
      (Or.inr fun hmem => Nat.lt_irrefl _ (hids _ hmem))
  have hhome : w.ending stack'.directory = dir := by
    rw [advances.directory, View.ending_congr advances.stows.base, h.home]
  rcases advances.tables with ⟨htables, hsame | hused⟩ | ⟨table, htables, hused, hnew⟩
  · refine ⟨hhome, ⟨ids, htables ▸ hstay, hsame ▸ hids⟩, ?_⟩
    rw [hsame]
    omega
  · refine ⟨hhome, ⟨ids, htables ▸ hstay, fun id hmem => ?_⟩, ?_⟩
    · rw [hused, hsucc]
      exact Nat.lt_succ_of_lt (hids id hmem)
    · rw [hused, hsucc]
      omega
  · refine ⟨hhome, ⟨stack.nextId.toNat :: ids, ?_, ?_⟩, ?_⟩
    · rw [htables]
      cases hnew with
      | cons hfirst _ => exact .cons hfirst hstay
    · rw [hused, hsucc]
      exact List.forall_mem_cons.2 ⟨Nat.lt_succ_self _, fun id hmem =>
        Nat.lt_succ_of_lt (hids id hmem)⟩
    · rw [hused, hsucc]
      omega

end OrderedStore.TableStack
