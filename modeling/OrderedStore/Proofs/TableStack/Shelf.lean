import Mathlib.Data.List.Forall2
import OrderedStore.Proofs.Engine.Scan
import OrderedStore.Proofs.Host.Change
import OrderedStore.Proofs.TableStack.Name
import OrderedStore.TableStack

/-!
# The directory of the tables

The directory of the tables holds complete table files and drafts. Drafts come and go without any
effect on the tables, and a draft that gets the name of a new table adds one.

Main definitions:

- `TableStack.Shelves`: what the directory holds.
- `TableStack.Serves`: open tables on files of the directory.
-/

namespace OrderedStore.TableStack

/-- A complete table file: its number and its entries. -/
structure Volume where
  id : Nat
  entries : List TableEntry

/-- A directory holds the files of some tables, newest first, and drafts. -/
structure Shelves (v : View) (dir : Location) (volumes : List Volume) : Prop where
  descending : volumes.Pairwise (fun newer older => older.id < newer.id)
  id_lt : ∀ volume ∈ volumes, volume.id < UInt64.size
  wellFormed : ∀ volume ∈ volumes, Table.WellFormed volume.entries
  file : ∀ volume ∈ volumes,
    ∃ id, v.file? (dir ++ [fileName volume.id]) = some (id, Table.image volume.entries)
  rest : ∀ name id bytes, v.file? (dir ++ [name]) = some (id, bytes) →
    (∃ number, name = draftName number) ∨ ∃ volume ∈ volumes, name = fileName volume.id
  flat : ∀ name, v.directory (dir ++ [name]) = false

/-- An open table on the file of a table in a directory. -/
structure Volume.OpenedBy (volume : Volume) (v : View) (dir : Location) (table : Table) : Prop where
  id_lt : volume.id < UInt64.size
  wellFormed : Table.WellFormed volume.entries
  layout : table.layout = Table.layoutOf volume.entries
  file : v.file? (dir ++ [fileName volume.id]) =
    some (table.handle.id, Table.image volume.entries)

/-- Open tables, newest first, on files of a directory. -/
def Serves (tables : List Table) (v : View) (dir : Location) (volumes : List Volume) : Prop :=
  List.Forall₂ (fun table volume => volume.OpenedBy v dir table) tables volumes

variable {v w : View} {dir place : Location} {volumes : List Volume} {volume : Volume}
  {number : Nat} {tables : List Table}

theorem place_fileName_ne (small : volume.id < UInt64.size) :
    dir ++ [fileName volume.id] ≠ dir ++ [draftName number] := by
  intro heq
  exact fileName_ne_draftName small number (by simpa using heq)

namespace Shelves

theorem congr (h : Shelves v dir volumes)
    (hfile : ∀ name, w.file? (dir ++ [name]) = v.file? (dir ++ [name]))
    (hdir : ∀ name, w.directory (dir ++ [name]) = v.directory (dir ++ [name])) :
    Shelves w dir volumes where
  descending := h.descending
  id_lt := h.id_lt
  wellFormed := h.wellFormed
  file volume hmem := by
    rw [hfile]
    exact h.file volume hmem
  rest name id bytes hname := h.rest name id bytes (by rwa [← hfile])
  flat name := by rw [hdir, h.flat]

/-- What happens elsewhere does not matter. -/
theorem sameBut (h : Shelves v dir volumes) (same : v.SameBut w place)
    (elsewhere : ¬ dir <+: place) : Shelves w dir volumes := by
  refine h.congr ?_ ?_
  · intro name
    refine same.file? _ fun heq => elsewhere ?_
    exact heq ▸ List.prefix_append dir [name]
  · intro name
    rw [same.directory]

/-- What happens to a draft does not matter. -/
theorem draft (h : Shelves v dir volumes) (same : v.SameBut w (dir ++ [draftName number])) :
    Shelves w dir volumes where
  descending := h.descending
  id_lt := h.id_lt
  wellFormed := h.wellFormed
  file volume hmem := by
    obtain ⟨id, hfile⟩ := h.file volume hmem
    exact ⟨id, (same.file? _ (place_fileName_ne (h.id_lt volume hmem))).trans hfile⟩
  rest other id bytes hfile := by
    by_cases heq : other = draftName number
    · exact Or.inl ⟨number, heq⟩
    · have hne : dir ++ [other] ≠ dir ++ [draftName number] := by simpa using heq
      exact h.rest other id bytes ((same.file? _ hne).symm.trans hfile)
  flat other := by rw [same.directory, h.flat]

/-- A draft gets the name of a new table. -/
theorem rename (h : Shelves v dir volumes) {id : Nat}
    (fresh : ∀ older ∈ volumes, older.id < volume.id) (small : volume.id < UInt64.size)
    (wellFormed : Table.WellFormed volume.entries)
    (hview : w = (v.put (dir ++ [draftName number]) none).put (dir ++ [fileName volume.id])
      (some (id, Table.image volume.entries))) :
    Shelves w dir (volume :: volumes) := by
  have hother : ∀ other, other ≠ fileName volume.id →
      w.file? (dir ++ [other]) =
        (v.put (dir ++ [draftName number]) none).file? (dir ++ [other]) := by
    intro other hne
    rw [hview]
    exact View.put_file?_of_ne _ _ (by simpa using hne)
  have hdrafted := h.draft (.put v (dir ++ [draftName number]) none)
  -- The name is new, since names of tables differ when their numbers do.
  refine ⟨List.pairwise_cons.2 ⟨fresh, h.descending⟩, ?_, ?_, ?_, ?_, ?_⟩
  · exact List.forall_mem_cons.2 ⟨small, h.id_lt⟩
  · exact List.forall_mem_cons.2 ⟨wellFormed, h.wellFormed⟩
  · refine List.forall_mem_cons.2 ⟨⟨id, View.file?_of_eq_put hview⟩, ?_⟩
    intro older hmem
    obtain ⟨owner, hfile⟩ := hdrafted.file older hmem
    refine ⟨owner, (hother _ fun heq => ?_).trans hfile⟩
    have := fileName_inj (h.id_lt older hmem) small heq
    have := fresh older hmem
    omega
  · intro other owner bytes hfile
    by_cases heq : other = fileName volume.id
    · exact Or.inr ⟨volume, by simp, heq⟩
    · rw [hother other heq] at hfile
      rcases hdrafted.rest other owner bytes hfile with hleft | ⟨older, hmem, hname⟩
      · exact Or.inl hleft
      · exact Or.inr ⟨older, List.mem_cons_of_mem _ hmem, hname⟩
  · intro other
    rw [hview]
    exact h.flat other

/-- A table whose number is not in use has no file yet. -/
theorem file?_eq_none (h : Shelves v dir volumes) {id : Nat} (small : id < UInt64.size)
    (fresh : ∀ older ∈ volumes, older.id < id) : v.file? (dir ++ [fileName id]) = none := by
  cases hfile : v.file? (dir ++ [fileName id]) with
  | none => rfl
  | some file =>
    rcases h.rest _ file.1 file.2 hfile with ⟨number, hname⟩ | ⟨older, hmem, hname⟩
    · exact absurd hname (fileName_ne_draftName small number)
    · have := fileName_inj small (h.id_lt older hmem) hname
      have := fresh older hmem
      omega

end Shelves

namespace Serves

theorem congr (h : Serves tables v dir volumes)
    (hfile : ∀ volume ∈ volumes,
      w.file? (dir ++ [fileName volume.id]) = v.file? (dir ++ [fileName volume.id])) :
    Serves tables w dir volumes := by
  induction h with
  | nil => exact .nil
  | @cons table volume tables volumes hfirst _ ih =>
    obtain ⟨hvolume, hrest⟩ := List.forall_mem_cons.1 hfile
    exact .cons ⟨hfirst.id_lt, hfirst.wellFormed, hfirst.layout, hvolume.trans hfirst.file⟩
      (ih hrest)

theorem id_lt (h : Serves tables v dir volumes) : ∀ volume ∈ volumes, volume.id < UInt64.size := by
  induction h with
  | nil => simp
  | cons hfirst _ ih => exact List.forall_mem_cons.2 ⟨hfirst.id_lt, ih⟩

theorem sameBut (h : Serves tables v dir volumes) (same : v.SameBut w place)
    (elsewhere : ¬ dir <+: place) : Serves tables w dir volumes := by
  refine h.congr fun volume _ => same.file? _ fun heq => elsewhere ?_
  exact heq ▸ List.prefix_append dir _

theorem draft (h : Serves tables v dir volumes)
    (same : v.SameBut w (dir ++ [draftName number])) : Serves tables w dir volumes :=
  h.congr fun volume hmem => same.file? _ (place_fileName_ne (h.id_lt volume hmem))

/-- Another table file does not concern the open ones. -/
theorem rename (h : Serves tables v dir volumes) {id : Nat} {file : Option (Nat × Bytes)}
    (fresh : ∀ older ∈ volumes, older.id < id) (small : id < UInt64.size)
    (hview : w = (v.put (dir ++ [draftName number]) none).put (dir ++ [fileName id]) file) :
    Serves tables w dir volumes := by
  refine (h.draft (.put v (dir ++ [draftName number]) none)).congr fun volume hmem => ?_
  rw [hview]
  refine View.put_file?_of_ne _ _ fun heq => ?_
  have hname : fileName volume.id = fileName id := by simpa using heq
  have := fileName_inj (h.id_lt volume hmem) small hname
  have := fresh volume hmem
  omega

/-- The open tables, as a reader sees them. -/
theorem opened (h : Serves tables v dir volumes) :
    Opened tables v (volumes.map (·.entries)) := by
  induction h with
  | nil => exact .nil
  | cons hfirst _ ih => exact .cons ⟨hfirst.wellFormed, ⟨_, hfirst.file⟩, hfirst.layout⟩ ih

end Serves

end OrderedStore.TableStack
