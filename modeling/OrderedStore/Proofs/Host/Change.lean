import OrderedStore.Proofs.Disk.View

/-!
# Changes of a host

What the changes of a file tree do to a sound host, in terms of its view: a file gets other bytes,
is made, removed or renamed, or a directory is made.
-/

namespace OrderedStore

namespace View

/-- What stands at a place, if anything does. -/
def kind? (v : View) (place : Location) : Option FileKind :=
  if (v.file? place).isSome then some .file
  else if v.directory place then some .directory else none

/-- The bytes of the file at a place; a file that is not there has none. -/
def bytesAt (v : View) (place : Location) : Bytes :=
  ((v.file? place).map (·.2)).getD []

theorem bytesAt_of_file? {v : View} {place : Location} {id : Nat} {bytes : Bytes}
    (h : v.file? place = some (id, bytes)) : v.bytesAt place = bytes := by
  simp [bytesAt, h]

/-- The view with a directory at a place. -/
def putDirectory (v : View) (place : Location) : View :=
  { v with directory := Function.update v.directory place true }

/-- The view after `size` bytes of a file were forced to disk. -/
def force (v : View) (id size : Nat) : View :=
  { v with forced := Function.update v.forced id size }

/-- The view with other locks. -/
def withLocked (v : View) (locked : List Nat) : View :=
  { v with locked }

/-- Two views that may differ in the file at one place only. -/
structure SameBut (v w : View) (place : Location) : Prop where
  directory : w.directory = v.directory
  base : w.base = v.base
  locked : w.locked = v.locked
  file? : ∀ other, other ≠ place → w.file? other = v.file? other
  forced : ∀ other id bytes, other ≠ place → v.file? other = some (id, bytes) →
    w.forced id = v.forced id

namespace SameBut

variable {u v w : View} {place : Location}

theorem refl (v : View) (place : Location) : v.SameBut v place :=
  ⟨rfl, rfl, rfl, fun _ _ => rfl, fun _ _ _ _ _ => rfl⟩

theorem trans (h : u.SameBut v place) (h' : v.SameBut w place) : u.SameBut w place where
  directory := h'.directory.trans h.directory
  base := h'.base.trans h.base
  locked := h'.locked.trans h.locked
  file? other hne := (h'.file? other hne).trans (h.file? other hne)
  forced := by
    intro other id bytes hne hfile
    have hfile' : v.file? other = some (id, bytes) := (h.file? other hne).trans hfile
    exact (h'.forced other id bytes hne hfile').trans (h.forced other id bytes hne hfile)

theorem symm (h : v.SameBut w place) : w.SameBut v place where
  directory := h.directory.symm
  base := h.base.symm
  locked := h.locked.symm
  file? other hne := (h.file? other hne).symm
  forced := by
    intro other id bytes hne hfile
    exact (h.forced other id bytes hne ((h.file? other hne).symm.trans hfile)).symm

theorem put (v : View) (place : Location) (file : Option (Nat × Bytes)) :
    v.SameBut (v.put place file) place :=
  ⟨rfl, rfl, rfl, fun _ hne => put_file?_of_ne _ _ hne, fun _ _ _ _ _ => rfl⟩

theorem of_eq_put {file : Option (Nat × Bytes)} (h : w = v.put place file) :
    v.SameBut w place :=
  h ▸ put v place file

theorem names (h : v.SameBut w place) {path : Path} {target : Location}
    (hnames : v.Names path target) : w.Names path target :=
  hnames.mono h.base fun _ hdir => by rwa [h.directory]

theorem reaches (h : v.SameBut w place) {path : Path} {target : Location}
    (hreaches : v.Reaches path target) : w.Reaches path target :=
  hreaches.mono h.base fun _ hdir => by rwa [h.directory]

end SameBut

/-- Two views that may differ in what stands below a place, and in whether a directory stands there.
No directory is lost. -/
structure SameOutside (v w : View) (place : Location) : Prop where
  base : w.base = v.base
  locked : w.locked = v.locked
  self : w.file? place = v.file? place
  file? : ∀ other, ¬ place <+: other → w.file? other = v.file? other
  directory : ∀ other, ¬ place <+: other → w.directory other = v.directory other
  kept : ∀ other, v.directory other = true → w.directory other = true
  forced : ∀ other id bytes, ¬ place <+: other → v.file? other = some (id, bytes) →
    w.forced id = v.forced id

namespace SameOutside

variable {u v w : View} {place : Location}

theorem refl (v : View) (place : Location) : v.SameOutside v place :=
  ⟨rfl, rfl, rfl, fun _ _ => rfl, fun _ _ => rfl, fun _ h => h, fun _ _ _ _ _ => rfl⟩

theorem trans (h : u.SameOutside v place) (h' : v.SameOutside w place) :
    u.SameOutside w place where
  base := h'.base.trans h.base
  locked := h'.locked.trans h.locked
  self := h'.self.trans h.self
  file? other hother := (h'.file? other hother).trans (h.file? other hother)
  directory other hother := (h'.directory other hother).trans (h.directory other hother)
  kept other hdir := h'.kept other (h.kept other hdir)
  forced := by
    intro other id bytes hother hfile
    have hfile' : v.file? other = some (id, bytes) := (h.file? other hother).trans hfile
    exact (h'.forced other id bytes hother hfile').trans (h.forced other id bytes hother hfile)

theorem of_sameBut {name : String} (h : v.SameBut w (place ++ [name])) :
    v.SameOutside w place where
  base := h.base
  locked := h.locked
  self := h.file? _ (by simp)
  file? := by
    intro other hother
    exact h.file? other fun heq => hother (heq ▸ List.prefix_append place [name])
  directory other _ := by rw [h.directory]
  kept other hdir := by rwa [h.directory]
  forced := by
    intro other id bytes hother hfile
    exact h.forced other id bytes (fun heq => hother (heq ▸ List.prefix_append place [name])) hfile

theorem putDirectory (v : View) (place : Location) :
    v.SameOutside (v.putDirectory place) place where
  base := rfl
  locked := rfl
  self := rfl
  file? _ _ := rfl
  directory other hother := by
    refine Function.update_of_ne ?_ ..
    rintro rfl
    exact hother (List.prefix_refl _)
  kept other hdir := by
    simp only [View.putDirectory, Function.update_apply]
    split
    · rfl
    · exact hdir
  forced _ _ _ _ _ := rfl

theorem reaches (h : v.SameOutside w place) {path : Path} {target : Location}
    (hreaches : v.Reaches path target) : w.Reaches path target :=
  hreaches.mono h.base h.kept

end SameOutside

end View

namespace Disk

/-- The bytes of a file. -/
def fileOf : Option (Nat × Node) → Option (Nat × Bytes)
  | some (id, .file content) => some (id, content.toList)
  | _ => none

/-- Whether a node is a directory. -/
def isDirectoryNode : Option (Nat × Node) → Bool
  | some (_, .directory) => true
  | _ => false

variable {disk : Disk} {place : Location}

theorem file?_eq (disk : Disk) (place : Location) :
    disk.file? place = fileOf (disk.node? place) := by
  unfold file? fileOf
  split <;> simp_all

theorem isDirectory_eq (disk : Disk) (place : Location) :
    disk.isDirectory place = isDirectoryNode (disk.node? place) := by
  rcases node?_cases disk place with ⟨hnode, _, hdir⟩ | ⟨id, hnode, _, hdir⟩ |
    ⟨id, content, hnode, _, hdir⟩ <;> rw [hdir, hnode] <;> rfl

theorem kindAt?_eq (disk : Disk) (place : Location) :
    disk.kindAt? place =
      if (disk.file? place).isSome then some .file
      else if disk.isDirectory place then some .directory else none := by
  rcases node?_cases disk place with ⟨hnode, hfile, hdir⟩ | ⟨id, hnode, hfile, hdir⟩ |
    ⟨id, content, hnode, hfile, hdir⟩ <;> simp [kindAt?, hfile, hdir, hnode, Node.kind]

end Disk

namespace Host

variable {host after : Host} {place target directory : Location} {name : String} {id : Nat}
  {bytes : Bytes}

theorem kindAt?_eq_kind? (host : Host) (place : Location) :
    host.disk.kindAt? place = host.view.kind? place :=
  Disk.kindAt?_eq host.disk place

/-- The view of a tree that differs at one place in the file that stands there. -/
theorem view_eq_put {node? : Option (Nat × Node)}
    (hnode : ∀ other, after.disk.node? other =
      if other = place then node? else host.disk.node? other)
    (hdir : Disk.isDirectoryNode node? = host.view.directory place)
    (hbase : after.disk.workingDirectory = host.disk.workingDirectory)
    (hlocked : after.locked = host.locked) (hforced : after.forced = host.forced) :
    after.view = host.view.put place (Disk.fileOf node?) := by
  refine View.ext ?_ ?_ hbase hlocked ?_
  · funext other
    change after.disk.file? other = Function.update host.disk.file? place _ other
    rw [Disk.file?_eq, hnode, Function.update_apply]
    split
    · rfl
    · exact (Disk.file?_eq ..).symm
  -- Directories are as before: at `place` by `hdir`, elsewhere since the nodes are the same.
  · funext other
    change after.disk.isDirectory other = host.disk.isDirectory other
    rw [Disk.isDirectory_eq, hnode]
    split
    · rename_i heq
      rw [heq]
      exact hdir
    · exact (Disk.isDirectory_eq ..).symm
  · funext id
    simp [view, forcedSize, hforced]

/-- A sound host stays sound with another tree that keeps numbers from being used again. -/
theorem Sound.withDisk (sound : host.Sound) {disk : Disk} (hdisk : disk.Sound)
    (fresh : host.disk.fresh ≤ disk.fresh) : Sound { host with disk } where
  disk := hdisk
  locked := by
    intro id hid
    exact Nat.lt_of_lt_of_le (sound.locked id hid) fresh
  forced := by
    intro id hid
    exact Nat.lt_of_lt_of_le (sound.forced id hid) fresh

/-- A file gets other bytes. -/
theorem Sound.setContent (sound : host.Sound) {content : Content}
    (h : host.view.file? place = some (id, bytes)) (size : content.size ≤ Disk.sizeLimit) :
    Sound { host with disk := host.disk.setNode id (.file content) } ∧
      view { host with disk := host.disk.setNode id (.file content) } =
        host.view.put place (some (id, content.toList)) := by
  obtain ⟨old, hnode, _⟩ := Disk.file?_eq_some_iff.1 h
  refine ⟨sound.withDisk (sound.disk.setNode hnode size) (Nat.le_refl _), ?_⟩
  have hdir : Disk.isDirectoryNode (some (id, .file content)) = host.view.directory place := by
    change false = host.disk.isDirectory place
    rw [Disk.isDirectory_eq, hnode]
    rfl
  exact view_eq_put (sound.disk.node?_setNode hnode _) hdir rfl rfl rfl

/-- A file is made that holds something. -/
theorem Sound.createFilled (sound : host.Sound)
    (free : host.disk.node? (directory ++ [name]) = none)
    (parent : host.disk.kindAt? directory = some .directory) {content : Content}
    (size : content.size ≤ Disk.sizeLimit) :
    Sound { host with disk := host.disk.create (directory ++ [name]) (.file content) } ∧
      view { host with disk := host.disk.create (directory ++ [name]) (.file content) } =
        host.view.put (directory ++ [name]) (some (host.disk.fresh, content.toList)) := by
  have hcreate : (host.disk.create (directory ++ [name]) (.file content)).Sound := by
    refine sound.disk.create free parent ?_
    intro content heq
    cases heq
    exact size
  refine ⟨sound.withDisk hcreate (Nat.le_succ _), ?_⟩
  -- There was nothing at the place, so no directory is lost.
  have hdir : Disk.isDirectoryNode (some (host.disk.fresh, .file content)) =
      host.view.directory (directory ++ [name]) := by
    change false = host.disk.isDirectory _
    rw [Disk.isDirectory_eq, free]
    rfl
  exact view_eq_put (sound.disk.node?_create _ _) hdir rfl rfl rfl

/-- A file is made. -/
theorem Sound.createFile (sound : host.Sound)
    (free : host.disk.node? (directory ++ [name]) = none)
    (parent : host.disk.kindAt? directory = some .directory) :
    Sound { host with disk := host.disk.create (directory ++ [name]) (.file .empty) } ∧
      view { host with disk := host.disk.create (directory ++ [name]) (.file .empty) } =
        host.view.put (directory ++ [name]) (some (host.disk.fresh, [])) :=
  sound.createFilled free parent (Nat.zero_le _)

/-- The number of a new node is that of no file, no lock and no forced file. -/
theorem Sound.fresh (sound : host.Sound) :
    host.disk.fresh ∉ host.view.locked ∧ host.view.forced host.disk.fresh = 0 ∧
      ∀ place bytes, host.view.file? place ≠ some (host.disk.fresh, bytes) := by
  refine ⟨?_, ?_, ?_⟩
  · intro hmem
    exact Nat.lt_irrefl _ (sound.locked _ hmem)
  · by_contra hne
    exact Nat.lt_irrefl _ (sound.forced _ hne)
  · intro place bytes hfile
    exact Nat.lt_irrefl _ (sound.id_lt hfile)

/-- A directory is made. -/
theorem Sound.createDirectory (sound : host.Sound)
    (free : host.disk.node? (directory ++ [name]) = none)
    (parent : host.disk.kindAt? directory = some .directory) :
    Sound { host with disk := host.disk.create (directory ++ [name]) .directory } ∧
      view { host with disk := host.disk.create (directory ++ [name]) .directory } =
        host.view.putDirectory (directory ++ [name]) := by
  have hcreate : (host.disk.create (directory ++ [name]) .directory).Sound := by
    refine sound.disk.create free parent ?_
    intro content heq
    cases heq
  refine ⟨sound.withDisk hcreate (Nat.le_succ _), ?_⟩
  have hnode := sound.disk.node?_create (directory ++ [name]) .directory
  refine View.ext ?_ ?_ rfl rfl rfl
  · funext other
    change (host.disk.create _ _).file? other = host.disk.file? other
    rw [Disk.file?_eq, hnode, Disk.file?_eq]
    split
    · rename_i heq
      rw [heq, free]
      rfl
    · rfl
  · funext other
    change (host.disk.create _ _).isDirectory other =
      Function.update host.disk.isDirectory _ true other
    rw [Disk.isDirectory_eq, hnode, Function.update_apply]
    split
    · rfl
    · exact (Disk.isDirectory_eq ..).symm

/-- A file is removed. -/
theorem Sound.unlinkFile (sound : host.Sound) (h : host.view.file? place = some (id, bytes)) :
    Sound { host with disk := host.disk.unlink place } ∧
      view { host with disk := host.disk.unlink place } = host.view.put place none := by
  obtain ⟨content, hnode, _⟩ := Disk.file?_eq_some_iff.1 h
  refine ⟨sound.withDisk (sound.disk.unlink hnode) (Nat.le_refl _), ?_⟩
  have hdir : Disk.isDirectoryNode none = host.view.directory place := by
    change false = host.disk.isDirectory place
    rw [Disk.isDirectory_eq, hnode]
    rfl
  exact view_eq_put (Disk.node?_unlink place) hdir rfl rfl rfl

/-- A file is renamed. -/
theorem Sound.moveFile (sound : host.Sound) (h : host.view.file? place = some (id, bytes))
    (hne : place ≠ directory ++ [name]) (parent : host.disk.kindAt? directory = some .directory)
    (clear : host.view.directory (directory ++ [name]) = false) :
    Sound { host with disk := host.disk.move place (directory ++ [name]) } ∧
      view { host with disk := host.disk.move place (directory ++ [name]) } =
        (host.view.put place none).put (directory ++ [name]) (some (id, bytes)) := by
  obtain ⟨content, hnode, rfl⟩ := Disk.file?_eq_some_iff.1 h
  have hclear : host.disk.kindAt? (directory ++ [name]) ≠ some .directory := by
    intro hkind
    rw [← Disk.isDirectory_iff] at hkind
    exact absurd (clear.symm.trans hkind) (by decide)
  refine ⟨sound.withDisk (sound.disk.move hnode hne parent hclear) (Nat.le_refl _), ?_⟩
  have hmove := sound.disk.node?_move hnode hne
  have hplace : host.disk.isDirectory place = false := by
    rw [Disk.isDirectory_eq, hnode]
    rfl
  refine View.ext ?_ ?_ rfl rfl rfl
  · funext other
    change (host.disk.move _ _).file? other =
      Function.update (Function.update host.disk.file? place none) _ _ other
    rw [Disk.file?_eq, hmove, Function.update_apply, Function.update_apply, Disk.file?_eq]
    split
    · rfl
    · split <;> rfl
  -- Neither end of the move is a directory, before it or after it.
  · funext other
    change (host.disk.move _ _).isDirectory other = host.disk.isDirectory other
    rw [Disk.isDirectory_eq, hmove]
    split
    · rename_i heq
      rw [heq]
      exact clear.symm
    · split
      · rename_i heq
        rw [heq, hplace]
        rfl
      · exact (Disk.isDirectory_eq ..).symm

/-- It is recorded how much of a file is on disk. -/
theorem Sound.setForced (sound : host.Sound) (handle : Handle)
    (h : host.view.file? place = some (handle.id, bytes)) (size : Nat) :
    (host.setForced handle size).Sound ∧
      (host.setForced handle size).view = host.view.force handle.id size := by
  have hview : (host.setForced handle size).view = host.view.force handle.id size := by
    refine View.ext rfl rfl rfl rfl ?_
    funext other
    simp only [view, View.force, Host.setForced, forcedSize, Dictionary.find?_insert,
      Function.update_apply]
    split <;> rfl
  refine ⟨⟨sound.disk, sound.locked, ?_⟩, hview⟩
  intro other hother
  rw [hview] at hother
  simp only [View.force, Function.update_apply] at hother
  split at hother
  · rename_i heq
    rw [heq]
    exact sound.id_lt h
  · exact sound.forced other hother

/-- Bytes and size on disk of one file concern no other file. -/
theorem Sound.sameBut (sound : after.Sound) {v : View} {size : Nat}
    (h : after.view = (v.put place (some (id, bytes))).force id size) :
    v.SameBut after.view place where
  directory := by rw [h]; rfl
  base := by rw [h]; rfl
  locked := by rw [h]; rfl
  file? other hne := by
    rw [h]
    exact View.put_file?_of_ne _ _ hne
  forced := by
    intro other id' bytes' hne hfile
    -- Another file has another number, so its forced size is left alone.
    have hother : after.view.file? other = some (id', bytes') := by
      rw [h, ← hfile]
      exact View.put_file?_of_ne _ _ hne
    have hplace : after.view.file? place = some (id, bytes) := by
      rw [h]
      exact View.put_file?_self ..
    rw [h]
    simp only [View.force, Function.update_apply]
    split
    · rename_i heq
      subst heq
      exact absurd (sound.place_eq hother hplace) hne
    · rfl

/-- Locks are taken or given up. -/
theorem Sound.relock (sound : host.Sound) (locked : List Nat)
    (h : ∀ id ∈ locked, id < host.disk.fresh) :
    Sound { host with locked } ∧ view { host with locked } = host.view.withLocked locked :=
  ⟨⟨sound.disk, h, sound.forced⟩, rfl⟩

end Host

end OrderedStore
