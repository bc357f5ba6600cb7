import Mathlib.Logic.Function.Basic
import OrderedStore.Host.Memory
import OrderedStore.Proofs.Disk.Sound

/-!
# Views of a host

What a store can tell about its host: the files with their bytes, the directories, how much of a
file was forced to disk, and the locks that are taken. How the bytes of a file are kept, and which
numbers nodes get, is left out.

`View.Reaches` says that a path leads to a directory; `Disk.find_child` says what stands under the
names in it.
-/

namespace OrderedStore

namespace Disk

/-- The file at a place: the number of its node, and its bytes. -/
def file? (disk : Disk) (place : Location) : Option (Nat × Bytes) :=
  match disk.node? place with
  | some (id, .file content) => some (id, content.toList)
  | _ => none

/-- Whether a directory stands at a place. -/
def isDirectory (disk : Disk) (place : Location) : Bool :=
  disk.kindAt? place = some .directory

variable {disk : Disk} {place : Location} {id : Nat} {bytes : Bytes}

theorem file?_eq_some_iff :
    disk.file? place = some (id, bytes) ↔
      ∃ content, disk.node? place = some (id, .file content) ∧ content.toList = bytes := by
  unfold file?
  constructor
  · intro h
    split at h
    · rename_i id' content hnode
      simp only [Option.some.injEq, Prod.mk.injEq] at h
      obtain ⟨rfl, rfl⟩ := h
      exact ⟨content, hnode, rfl⟩
    · cases h
  · rintro ⟨content, hnode, rfl⟩
    rw [hnode]

theorem isDirectory_iff : disk.isDirectory place = true ↔ disk.kindAt? place = some .directory := by
  simp [isDirectory]

theorem isDirectory_iff_node? :
    disk.isDirectory place = true ↔ ∃ id, disk.node? place = some (id, .directory) := by
  rw [isDirectory_iff, kindAt?_eq_some_iff]
  constructor
  · rintro ⟨id, node, hnode, hkind⟩
    cases node with
    | directory => exact ⟨id, hnode⟩
    | file content => cases hkind
  · rintro ⟨id, hnode⟩
    exact ⟨id, .directory, hnode, rfl⟩

/-- At a place there is nothing, a directory or a file. -/
theorem node?_cases (disk : Disk) (place : Location) :
    (disk.node? place = none ∧ disk.file? place = none ∧ disk.isDirectory place = false) ∨
    (∃ id, disk.node? place = some (id, .directory) ∧ disk.file? place = none ∧
      disk.isDirectory place = true) ∨
    ∃ id content, disk.node? place = some (id, .file content) ∧
      disk.file? place = some (id, content.toList) ∧ disk.isDirectory place = false := by
  cases h : disk.node? place with
  | none => simp [file?, isDirectory, kindAt?, h]
  | some pair =>
    obtain ⟨id, node⟩ := pair
    cases node <;> simp [file?, isDirectory, kindAt?, h, Node.kind]

theorem contentOf_of_file? (h : disk.file? place = some (id, bytes)) :
    ∃ content, disk.contentOf ⟨id⟩ = .ok content ∧ content.toList = bytes := by
  obtain ⟨content, hnode, rfl⟩ := file?_eq_some_iff.1 h
  exact ⟨content, by simp [contentOf, (node?_eq_some_iff.1 hnode).2], rfl⟩

end Disk

/-- What a store can tell about its host. -/
@[ext]
structure View where
  /-- The number and the bytes of the file at a place. -/
  file? : Location → Option (Nat × Bytes)
  directory : Location → Bool
  /-- Where relative paths start. -/
  base : Location
  locked : List Nat
  /-- How many bytes of a file are on disk for sure. -/
  forced : Nat → Nat

namespace Host

/-- What a store can tell about a host. -/
def view (host : Host) : View where
  file? := host.disk.file?
  directory := host.disk.isDirectory
  base := host.disk.workingDirectory
  locked := host.locked
  forced id := host.forcedSize ⟨id⟩

/-- A sound tree, with locks and forced sizes of its nodes only. -/
structure Sound (host : Host) : Prop where
  disk : host.disk.Sound
  locked : ∀ id ∈ host.locked, id < host.disk.fresh
  forced : ∀ id, host.view.forced id ≠ 0 → id < host.disk.fresh

theorem sound_empty : empty.Sound where
  disk := Disk.sound_empty
  locked id hmem := by cases hmem
  forced id hforced := absurd rfl hforced

variable {host : Host} {place other : Location} {id : Nat} {bytes : Bytes}

theorem Sound.id_lt (sound : host.Sound) (h : host.view.file? place = some (id, bytes)) :
    id < host.disk.fresh := by
  obtain ⟨content, hnode, _⟩ := Disk.file?_eq_some_iff.1 h
  exact sound.disk.bounded (Disk.node?_eq_some_iff.1 hnode).1

theorem Sound.place_eq (sound : host.Sound) {bytes' : Bytes}
    (h : host.view.file? place = some (id, bytes))
    (h' : host.view.file? other = some (id, bytes')) : place = other := by
  obtain ⟨content, hnode, _⟩ := Disk.file?_eq_some_iff.1 h
  obtain ⟨content', hnode', _⟩ := Disk.file?_eq_some_iff.1 h'
  exact sound.disk.distinct (Disk.node?_eq_some_iff.1 hnode).1 (Disk.node?_eq_some_iff.1 hnode').1

theorem Sound.length_le (sound : host.Sound) (h : host.view.file? place = some (id, bytes)) :
    bytes.length ≤ Disk.sizeLimit := by
  obtain ⟨content, hnode, rfl⟩ := Disk.file?_eq_some_iff.1 h
  rw [Content.length_toList]
  exact sound.disk.sized (Disk.node?_eq_some_iff.1 hnode).2

end Host

namespace View

/-- The view with another file, or none, at a place. -/
def put (v : View) (place : Location) (file : Option (Nat × Bytes)) : View :=
  { v with file? := Function.update v.file? place file }

section Put

variable (v : View) (place other : Location) (file : Option (Nat × Bytes))

@[simp]
theorem put_directory : (v.put place file).directory = v.directory :=
  rfl

@[simp]
theorem put_base : (v.put place file).base = v.base :=
  rfl

@[simp]
theorem put_locked : (v.put place file).locked = v.locked :=
  rfl

@[simp]
theorem put_forced : (v.put place file).forced = v.forced :=
  rfl

@[simp]
theorem put_file?_self : (v.put place file).file? place = file :=
  Function.update_self ..

variable {v place file} in
theorem file?_of_eq_put {w : View} (h : w = v.put place file) : w.file? place = file := by
  rw [h, put_file?_self]

variable {place other} in
theorem put_file?_of_ne (h : other ≠ place) : (v.put place file).file? other = v.file? other :=
  Function.update_of_ne h ..

theorem put_eq_self (h : v.file? place = file) : v.put place file = v := by
  subst h
  unfold put
  rw [Function.update_eq_self]

end Put

/-! ## Paths -/

/-- Steps lead from a directory to a directory, through directories. -/
inductive Leads (v : View) : Location → List PathStep → Location → Prop where
  | stay {place : Location} : v.directory place = true → Leads v place [] place
  | step {place next target : Location} {step : PathStep} {rest : List PathStep} :
      v.directory place = true → Disk.stepFrom place step = .ok next →
      Leads v next rest target → Leads v place (step :: rest) target

/-- Where a path starts. -/
def startOf (v : View) (path : Path) : Location :=
  if path.absolute then [] else v.base

/-- A path leads to the directory at a place. -/
structure Reaches (v : View) (path : Path) (place : Location) : Prop where
  clean : path.text.toList.contains '\x00' = false
  leads : v.Leads (v.startOf path) path.steps place

variable {v w : View} {place target : Location} {path : Path}

theorem Leads.mono {steps : List PathStep} (h : v.Leads place steps target)
    (hdir : ∀ place, v.directory place = true → w.directory place = true) :
    w.Leads place steps target := by
  induction h with
  | stay hplace => exact .stay (hdir _ hplace)
  | step hplace hstep _ ih => exact .step (hdir _ hplace) hstep ih

theorem Leads.directory {steps : List PathStep} (h : v.Leads place steps target) :
    v.directory target = true := by
  induction h with
  | stay hplace => exact hplace
  | step _ _ _ ih => exact ih

theorem Leads.unique {steps : List PathStep} {target' : Location}
    (h : v.Leads place steps target) (h' : w.Leads place steps target') : target = target' := by
  induction h with
  | stay =>
    cases h'
    rfl
  | step _ hstep _ ih =>
    cases h' with
    | step _ hstep' hrest =>
      rw [hstep] at hstep'
      cases hstep'
      exact ih hrest

theorem Leads.append {front back : List PathStep} {middle : Location}
    (h : v.Leads place front middle) (h' : v.Leads middle back target) :
    v.Leads place (front ++ back) target := by
  induction h with
  | stay => exact h'
  | step hplace hstep _ ih => exact .step hplace hstep (ih h')

theorem Reaches.mono (h : v.Reaches path place) (hbase : w.base = v.base)
    (hdir : ∀ place, v.directory place = true → w.directory place = true) :
    w.Reaches path place where
  clean := h.clean
  leads := by
    have hstart : w.startOf path = v.startOf path := by
      simp [startOf, hbase]
    rw [hstart]
    exact h.leads.mono hdir

theorem Reaches.put (h : v.Reaches path place) (other : Location)
    (file : Option (Nat × Bytes)) : (v.put other file).Reaches path place :=
  h.mono rfl fun _ => id

theorem Reaches.directory (h : v.Reaches path place) : v.directory place = true :=
  h.leads.directory

theorem Reaches.unique {place' : Location} (h : v.Reaches path place)
    (h' : w.Reaches path place') (hbase : w.base = v.base) : place = place' := by
  have hstart : w.startOf path = v.startOf path := by
    simp [startOf, hbase]
  have := h'.leads
  rw [hstart] at this
  exact h.leads.unique this

end View

/-! ## Paths to the entries of directories -/

/-- A name that can be an entry of a directory. -/
def PlainName (name : String) : Prop :=
  name ≠ "" ∧ name.toList.contains '\x00' = false

instance (name : String) : Decidable (PlainName name) :=
  inferInstanceAs (Decidable (_ ∧ _))

/-- A path leads to an entry of a directory, whether it is there or not. -/
def View.Names (v : View) (path : Path) (target : Location) : Prop :=
  ∃ dir place name, v.Reaches dir place ∧ PlainName name ∧ path = dir.child name ∧
    target = place ++ [name]

/-- A path that is too long, or that ends in too long a name. -/
def Path.Overlong (path : Path) : Prop :=
  Disk.pathLimit ≤ path.text.utf8ByteSize ∨
    ∃ name, path.steps.getLast? = some (.entry name) ∧ Disk.nameLimit < name.utf8ByteSize

namespace View

variable {v w : View} {dir path : Path} {place target : Location} {name : String}

theorem Reaches.names (h : v.Reaches dir place) (plain : PlainName name) :
    v.Names (dir.child name) (place ++ [name]) :=
  ⟨dir, place, name, h, plain, rfl, rfl⟩

theorem Names.mono (h : v.Names path target) (hbase : w.base = v.base)
    (hdir : ∀ place, v.directory place = true → w.directory place = true) :
    w.Names path target := by
  obtain ⟨dir, place, name, hreaches, rest⟩ := h
  exact ⟨dir, place, name, hreaches.mono hbase hdir, rest⟩

theorem toList_text_child (dir : Path) (name : String) :
    (dir.child name).text.toList = dir.text.toList ++ name.toList ∨
      (dir.child name).text.toList = dir.text.toList ++ '/' :: name.toList := by
  unfold Path.child
  split
  · exact Or.inl (by simp)
  · exact Or.inr (by simp)

theorem contains_text_child (h : v.Reaches dir place) (plain : PlainName name) :
    (dir.child name).text.toList.contains '\x00' = false := by
  have hdir := h.clean
  have hname := plain.2
  rcases toList_text_child dir name with heq | heq <;> simp_all

theorem text_child_ne (dir : Path) (plain : PlainName name) : (dir.child name).text ≠ "" := by
  intro hempty
  have hname : name.toList ≠ [] := fun heq => plain.1 (by simpa using heq)
  rcases toList_text_child dir name with heq | heq <;> simp_all

theorem Reaches.child (h : v.Reaches dir place) (plain : PlainName name)
    (short : name.utf8ByteSize ≤ Disk.nameLimit) (hdir : v.directory (place ++ [name]) = true) :
    v.Reaches (dir.child name) (place ++ [name]) where
  clean := contains_text_child h plain
  leads := by
    refine h.leads.append (.step h.directory ?_ (.stay hdir))
    simp [Disk.stepFrom, Nat.not_lt.2 short]

end View

/-! ## Following a path -/

theorem bind_eq_ok_iff {ε α β : Type} {x : Except ε α} {next : α → Except ε β} {b : β} :
    (x >>= next) = .ok b ↔ ∃ a, x = .ok a ∧ next a = .ok b := by
  cases x with
  | error e => simp [bind, Except.bind]
  | ok a => simp [bind, Except.bind]

namespace Disk

variable {host : Host} {path : Path} {place target : Location}

theorem checkDirectory_eq_ok_iff {disk : Disk} :
    disk.checkDirectory place = .ok () ↔ disk.isDirectory place = true := by
  rw [isDirectory_iff]
  unfold checkDirectory
  split <;> simp_all

theorem clean_of_checkPath (h : checkPath path = .ok ()) :
    path.text.toList.contains '\x00' = false := by
  unfold checkPath at h
  split at h
  · cases h
  · rename_i hclean
    simpa using hclean

theorem walk_eq_ok_iff {steps : List PathStep} :
    host.disk.walk place steps = .ok target ↔ host.view.Leads place steps target := by
  induction steps generalizing place with
  | nil =>
    constructor
    · intro h
      obtain ⟨_, hcheck, heq⟩ := bind_eq_ok_iff.1 h
      cases heq
      exact .stay (checkDirectory_eq_ok_iff.1 hcheck)
    · rintro ⟨hplace⟩
      exact bind_eq_ok_iff.2 ⟨(), checkDirectory_eq_ok_iff.2 hplace, rfl⟩
  | cons step rest ih =>
    constructor
    · intro h
      obtain ⟨_, hcheck, h⟩ := bind_eq_ok_iff.1 h
      obtain ⟨next, hstep, hrest⟩ := bind_eq_ok_iff.1 h
      exact .step (checkDirectory_eq_ok_iff.1 hcheck) hstep (ih.1 hrest)
    · intro h
      cases h with
      | step hplace hstep hrest =>
        refine bind_eq_ok_iff.2 ⟨(), checkDirectory_eq_ok_iff.2 hplace, ?_⟩
        exact bind_eq_ok_iff.2 ⟨_, hstep, ih.2 hrest⟩

/-- A path is followed up to its last step. -/
theorem approach_eq_ok_iff {directory : Location} {step : PathStep} :
    host.disk.approach path = .ok (directory, step) ↔
      checkPath path = .ok () ∧
        host.view.Leads (host.view.startOf path) path.steps.dropLast directory ∧
        path.steps.getLast?.getD .here = step := by
  constructor
  · intro h
    obtain ⟨_, hcheck, h⟩ := bind_eq_ok_iff.1 h
    obtain ⟨directory, hwalk, heq⟩ := bind_eq_ok_iff.1 h
    cases heq
    exact ⟨hcheck, walk_eq_ok_iff.1 hwalk, rfl⟩
  · rintro ⟨hcheck, hleads, rfl⟩
    refine bind_eq_ok_iff.2 ⟨(), hcheck, ?_⟩
    exact bind_eq_ok_iff.2 ⟨directory, walk_eq_ok_iff.2 hleads, rfl⟩

theorem find_eq_ok_iff {id : Nat} {node : Node} :
    host.disk.find path = .ok (place, id, node) ↔
      ∃ directory step, host.disk.approach path = .ok (directory, step) ∧
        stepFrom directory step = .ok place ∧ host.disk.node? place = some (id, node) ∧
        ¬ (path.trailingSlash = true ∧ node.kind = .file) := by
  constructor
  · intro h
    obtain ⟨⟨directory, step⟩, happroach, h⟩ := bind_eq_ok_iff.1 h
    obtain ⟨place, hstep, h⟩ := bind_eq_ok_iff.1 h
    split at h
    · cases h
    · rename_i id node hnode
      split at h
      · cases h
      · rename_i hslash
        cases h
        exact ⟨directory, step, happroach, hstep, hnode, hslash⟩
  · rintro ⟨directory, step, happroach, hstep, hnode, hslash⟩
    refine bind_eq_ok_iff.2 ⟨(directory, step), happroach, ?_⟩
    refine bind_eq_ok_iff.2 ⟨place, hstep, ?_⟩
    simp only [hnode, hslash, if_false]
    rfl

/-- How a path to an entry is followed: up to the last step, and over it. -/
theorem approach_of_names (h : host.view.Names path target) :
    (path.Overlong ∧ (host.disk.approach path = .error .nameTooLong ∨
      ∃ place name, host.disk.approach path = .ok (place, .entry name) ∧
        stepFrom place (.entry name) = .error .nameTooLong)) ∨
    (¬ path.Overlong ∧ path.trailingSlash = false ∧
      ∃ place name, host.disk.approach path = .ok (place, .entry name) ∧
        stepFrom place (.entry name) = .ok target ∧ target = place ++ [name] ∧
        host.disk.kindAt? place = some .directory) := by
  obtain ⟨dir, place, name, hreaches, plain, rfl, rfl⟩ := h
  have hwalk : host.disk.walk (host.view.startOf dir) dir.steps = .ok place :=
    walk_eq_ok_iff.2 hreaches.leads
  have happroach : host.disk.approach (dir.child name) = (do
      checkPath (dir.child name)
      let directory ← host.disk.walk (host.view.startOf dir) (dir.child name).steps.dropLast
      return (directory, (dir.child name).steps.getLast?.getD .here)) := rfl
  simp only [Path.steps_child, List.dropLast_concat, List.getLast?_concat, Option.getD_some, hwalk,
    checkPath, View.contains_text_child hreaches plain, View.text_child_ne dir plain] at happroach
  -- The path as a whole may be too long, or its last name; only then following it fails.
  by_cases hpath : pathLimit ≤ (dir.child name).text.utf8ByteSize
  · refine Or.inl ⟨Or.inl hpath, Or.inl ?_⟩
    simp only [hpath, if_true] at happroach
    exact happroach
  · simp only [hpath] at happroach
    by_cases hname : nameLimit < name.utf8ByteSize
    · refine Or.inl ⟨Or.inr ⟨name, by simp, hname⟩, Or.inr ⟨place, name, happroach, ?_⟩⟩
      simp [stepFrom, hname]
    · refine Or.inr ⟨?_, rfl, place, name, happroach, ?_, rfl, ?_⟩
      · rintro (hlong | ⟨other, hlast, hlong⟩)
        · exact hpath hlong
        · simp only [Path.steps_child, List.getLast?_concat, Option.some.injEq,
            PathStep.entry.injEq] at hlast
          exact hname (hlast ▸ hlong)
      · simp [stepFrom, hname]
      · exact isDirectory_iff.1 hreaches.directory

/-- What is found under a path to an entry. -/
theorem find_of_names (h : host.view.Names path target) :
    (path.Overlong ∧ host.disk.find path = .error .nameTooLong) ∨
    (¬ path.Overlong ∧ host.disk.find path =
      match host.disk.node? target with
      | none => .error .notFound
      | some (id, node) => .ok (target, id, node)) := by
  rcases approach_of_names h with ⟨long, happroach | ⟨place, name, happroach, hstep⟩⟩ |
    ⟨short, hslash, place, name, happroach, hstep, _⟩
  · exact Or.inl ⟨long, by simp [find, happroach, bind, Except.bind]⟩
  · exact Or.inl ⟨long, by simp [find, happroach, hstep, bind, Except.bind]⟩
  · refine Or.inr ⟨short, ?_⟩
    simp only [find, happroach, hstep, hslash, bind, Except.bind]
    cases host.disk.node? target with
    | none => rfl
    | some pair => simp [pure, Except.pure]

end Disk

end OrderedStore
