import OrderedStore.Proofs.Host.Change
import OrderedStore.Proofs.Host.Hindrance

/-!
# Open files

A handle stands for a node of the disk, not for a name. So whatever calls are made, by its owner or
by others, and whichever of them are refused: a handle that was opened on a file stays open on it.

Main definitions:

- `Disk.OpensFile`: a handle is open on a file.
- `Disk.Continues`: a disk to which calls were made.

Main statements: `Script.Endures.continues`, `Action.opensFile_of_endures`.
-/

namespace OrderedStore

namespace Disk

variable {disk after between : Disk} {handle : Handle} {path : Path}

/-- Names lead to nodes whose numbers have been given. -/
def Bounded (disk : Disk) : Prop :=
  ∀ entry ∈ disk.names.entries, entry.2 < disk.fresh

/-- A handle is open on a file. -/
structure OpensFile (disk : Disk) (handle : Handle) : Prop where
  given : handle.id < disk.fresh
  content : ∃ content, disk.contentOf handle = .ok content

theorem Sound.namesBounded (sound : disk.Sound) : disk.Bounded :=
  fun _ hmem => sound.bounded (Dictionary.find?_of_mem sound.keyed hmem)

theorem contentOf_eq_ok_iff {content : Content} :
    disk.contentOf handle = .ok content ↔ disk.nodes.find? handle.id = some (.file content) := by
  unfold contentOf
  split <;> simp_all

/-- A handle on a file that stands somewhere is open. -/
theorem opensFile_of_node? {place : Location} {content : Content} (bounded : disk.Bounded)
    (node : disk.node? place = some (handle.id, .file content)) : disk.OpensFile handle := by
  obtain ⟨hname, hfile⟩ := node?_eq_some_iff.1 node
  exact ⟨bounded _ (Dictionary.mem_of_find? hname), content, contentOf_eq_ok_iff.2 hfile⟩

/-- A disk to which calls were made: its names are bounded, and open files are open still. -/
structure Continues (disk after : Disk) : Prop where
  bounded : disk.Bounded → after.Bounded
  opensFile : ∀ handle, disk.OpensFile handle → after.OpensFile handle

namespace Continues

theorem refl (disk : Disk) : disk.Continues disk :=
  ⟨id, fun _ => id⟩

theorem trans (h : disk.Continues between) (h' : between.Continues after) :
    disk.Continues after where
  bounded hbounded := h'.bounded (h.bounded hbounded)
  opensFile handle hopens := h'.opensFile handle (h.opensFile handle hopens)

/-- Only names were changed, and they are names of nodes that had names. -/
theorem of_names (names : ∀ entry ∈ after.names.entries, ∃ other ∈ disk.names.entries,
      other.2 = entry.2)
    (nodes : after.nodes = disk.nodes) (fresh : after.fresh = disk.fresh) :
    disk.Continues after where
  bounded := by
    intro hbounded entry hmem
    obtain ⟨other, hother, heq⟩ := names entry hmem
    rw [fresh, ← heq]
    exact hbounded other hother
  opensFile := by
    rintro handle ⟨hgiven, content, hcontent⟩
    rw [contentOf_eq_ok_iff] at hcontent
    exact ⟨by rwa [fresh], content, by rw [contentOf_eq_ok_iff, nodes, hcontent]⟩

theorem unlink (disk : Disk) (place : Location) : disk.Continues (disk.unlink place) :=
  of_names (fun entry hmem => ⟨entry, List.mem_of_mem_filter hmem, rfl⟩) rfl rfl

theorem move (disk : Disk) (source target : Location) :
    disk.Continues (disk.move source target) := by
  refine of_names ?_ rfl rfl
  intro entry hmem
  obtain ⟨⟨place, id⟩, hother, rfl⟩ := List.mem_map.1 hmem
  refine ⟨(place, id), List.mem_of_mem_filter hother, ?_⟩
  simp only
  split <;> rfl

/-- A new node has a number that no handle is open on. -/
theorem create (disk : Disk) (place : Location) (node : Node) :
    disk.Continues (disk.create place node) where
  bounded := by
    intro hbounded entry hmem
    rcases List.mem_cons.1 hmem with rfl | hold
    · exact Nat.lt_succ_self _
    · exact Nat.lt_succ_of_lt (hbounded entry (List.mem_of_mem_filter hold))
  opensFile := by
    rintro handle ⟨hgiven, content, hcontent⟩
    rw [contentOf_eq_ok_iff] at hcontent
    refine ⟨Nat.lt_succ_of_lt hgiven, content, ?_⟩
    rw [contentOf_eq_ok_iff, Disk.create, Dictionary.find?_insert, if_neg (Nat.ne_of_lt hgiven),
      hcontent]

theorem setContent (disk : Disk) (id : Nat) (content : Content) :
    disk.Continues (disk.setNode id (.file content)) where
  bounded := fun hbounded => hbounded
  opensFile := by
    rintro handle ⟨hgiven, old, hcontent⟩
    rw [contentOf_eq_ok_iff] at hcontent
    refine ⟨hgiven, if handle.id = id then content else old, ?_⟩
    rw [contentOf_eq_ok_iff, setNode, Dictionary.find?_insert]
    split
    · rfl
    · exact hcontent

theorem makeDirectory (h : disk.makeDirectory path = .ok after) : disk.Continues after := by
  obtain ⟨⟨directory, step⟩, -, h⟩ := bind_eq_ok_iff.1 h
  cases step with
  | here | up => cases h
  | entry name =>
    obtain ⟨place, -, h⟩ := bind_eq_ok_iff.1 h
    split at h
    · cases h
    · cases h
      exact create disk place .directory

theorem settleDirectory (path : Path) {outcome : Except SystemFault Disk}
    (h : ∀ made, outcome = .ok made → disk.Continues made) :
    disk.Continues (disk.settleDirectory path outcome).2 := by
  cases outcome with
  | ok made => exact h made rfl
  | error fault =>
    simp only [Disk.settleDirectory]
    split <;> exact refl disk

theorem makeLineage (paths : List Path) : disk.Continues (disk.makeLineage paths).2 := by
  -- Along the directories above, which are made first; what was made stays even after a failure.
  induction paths with
  | nil => exact refl disk
  | cons path above ih =>
    unfold Disk.makeLineage
    split
    · split
      · rename_i made hmade
        rw [hmade] at ih
        exact ih.trans (settleDirectory path fun _ => makeDirectory)
      · rename_i fault made hmade
        rwa [hmade] at ih
    · exact settleDirectory path fun _ => makeDirectory

theorem removeFile (h : disk.removeFile path = .ok after) : disk.Continues after := by
  obtain ⟨⟨directory, step⟩, -, h⟩ := bind_eq_ok_iff.1 h
  cases step with
  | here | up => cases h
  | entry name =>
    obtain ⟨place, -, h⟩ := bind_eq_ok_iff.1 h
    split at h
    · cases h
    · cases h
    · split at h
      · cases h
      · cases h
        exact unlink disk place

theorem renameAt {source target : Location} {kind : FileKind}
    (h : disk.renameAt source target kind = .ok after) : disk.Continues after := by
  unfold Disk.renameAt at h
  repeat' split at h
  all_goals cases h
  all_goals first | exact refl disk | exact move disk source target

theorem rename {source target : Path} (h : disk.rename source target = .ok after) :
    disk.Continues after := by
  unfold Disk.rename at h
  split at h
  · cases h
  obtain ⟨⟨sourceDirectory, sourceStep⟩, -, h⟩ := bind_eq_ok_iff.1 h
  obtain ⟨⟨targetDirectory, targetStep⟩, -, h⟩ := bind_eq_ok_iff.1 h
  simp only at h
  split at h
  · obtain ⟨sourcePlace, -, h⟩ := bind_eq_ok_iff.1 h
    split at h
    · cases h
    obtain ⟨targetPlace, -, h⟩ := bind_eq_ok_iff.1 h
    split at h
    · cases h
    split at h
    · cases h
    split at h
    · cases h
    exact renameAt h
  · cases h

theorem openOrCreate {replace : Bool} {opened : Handle × Disk}
    (h : disk.openOrCreate path replace = .ok opened) : disk.Continues opened.2 := by
  obtain ⟨⟨directory, step⟩, -, h⟩ := bind_eq_ok_iff.1 h
  simp only at h
  split at h
  · obtain ⟨place, -, h⟩ := bind_eq_ok_iff.1 h
    split at h
    · cases h
      exact create disk place _
    · cases h
    · cases h
      cases replace with
      | true => exact setContent disk _ _
      | false => exact refl disk
  · cases h

theorem openFile (disk : Disk) (path : Path) (mode : OpenMode) :
    disk.Continues (disk.openFile path mode).2 := by
  unfold Disk.openFile
  simp only
  split
  -- Only a file that is made or emptied changes the disk.
  · rename_i handle opened hopened
    cases mode with
    | read =>
      obtain ⟨found, -, h⟩ := bind_eq_ok_iff.1 hopened
      cases h
      exact refl disk
    | update =>
      obtain ⟨found, -, h⟩ := bind_eq_ok_iff.1 hopened
      split at h
      · cases h
      · cases h
        exact refl disk
    | keep | replace => exact openOrCreate hopened
  · exact refl disk

theorem modify (size : Content → Nat) (change : Content → Content) :
    disk.Continues (disk.modify handle size change).2 := by
  unfold Disk.modify
  split
  · exact refl disk
  · split
    · exact refl disk
    · exact setContent disk _ _

end Continues

/-- A file that is opened for writing is open, whether it was there or was made. -/
theorem opensFile_of_openOrCreate {replace : Bool} {opened : Handle × Disk}
    (bounded : disk.Bounded) (h : disk.openOrCreate path replace = .ok opened) :
    opened.2.OpensFile opened.1 := by
  obtain ⟨⟨directory, step⟩, -, h⟩ := bind_eq_ok_iff.1 h
  simp only at h
  split at h
  · obtain ⟨place, -, h⟩ := bind_eq_ok_iff.1 h
    split at h
    · cases h
      refine ⟨Nat.lt_succ_self _, .empty, contentOf_eq_ok_iff.2 ?_⟩
      rw [Disk.create, Dictionary.find?_insert, if_pos rfl]
    · cases h
    · rename_i id content hnode
      cases h
      have hopens : disk.OpensFile ⟨id⟩ := opensFile_of_node? bounded hnode
      cases replace with
      | true => exact (Continues.setContent disk id .empty).opensFile ⟨id⟩ hopens
      | false => exact hopens
  · cases h

end Disk

variable {host after : Host}

theorem Host.continues_withDisk {changed : Except SystemFault Disk}
    (h : ∀ disk, changed = .ok disk → host.disk.Continues disk) :
    host.disk.Continues (host.withDisk changed).2.disk := by
  cases changed with
  | error fault => exact .refl _
  | ok disk => exact h disk rfl

theorem Host.disk_settleCut {α : Type} (host : Host) (handle : Handle) (size : Nat)
    (outcome : Except SystemFault α × Disk) :
    (host.settleCut handle size outcome).2.disk = outcome.2 := by
  obtain ⟨_ | _, _⟩ := outcome <;> rfl

theorem Host.disk_settleOpened (host : Host) (mode : OpenMode)
    (outcome : Except SystemFault Handle × Disk) :
    (host.settleOpened mode outcome).2.disk = outcome.2 := by
  obtain ⟨fault | handle, disk⟩ := outcome
  · rfl
  · simp only [settleOpened]
    split
    · exact disk_settleCut ..
    · rfl

/-- Whatever call is made, open files stay open. -/
theorem Host.continues_answer (host : Host) (call : Call) :
    host.disk.Continues (host.answer call).2.disk := by
  cases call with
  | probe | list | size | read | unlock | report | clock | sync => exact .refl _
  | lock handle =>
    simp only [answer]
    split <;> exact .refl _
  | makeDirectories path => exact .makeLineage _
  | removeFile path => exact continues_withDisk fun _ => .removeFile
  | rename source target => exact continues_withDisk fun _ => .rename
  | openFile path mode =>
    simp only [answer, disk_settleOpened]
    exact .openFile host.disk path mode
  | write handle offset data =>
    simp only [answer, settle, Disk.write]
    split
    · exact .refl _
    · exact .modify _ _
  | append handle data => exact .modify _ _
  | resize handle size =>
    simp only [answer, disk_settleCut]
    exact .modify _ _

/-- A file that was opened for writing is open. -/
theorem Host.opensFile_of_answer {path : Path} {handle : Handle} (bounded : host.disk.Bounded)
    (h : host.answer (.openFile path .keep) = (.ok handle, after)) :
    after.disk.OpensFile handle := by
  cases hopened : host.disk.openOrCreate path false with
  | error fault => simp [answer, Disk.openFile, hopened, settleOpened] at h
  | ok opened =>
    have hopens := Disk.opensFile_of_openOrCreate bounded hopened
    simp only [answer, Disk.openFile, hopened, settleOpened, reduceCtorEq, if_false,
      Prod.mk.injEq, Except.ok.injEq] at h
    rw [← h.1, ← h.2]
    exact hopens

/-- Open files stay open in the course of a run, whatever is refused in it. -/
theorem Script.Endures.continues {α : Type} {may : Host → Call → Prop} {script : Script α}
    {value : α} (run : script.Endures may host value after) : host.disk.Continues after.disk := by
  induction run with
  | done => exact .refl _
  | answered _ ih => exact (Host.continues_answer _ _).trans ih
  -- A refused call leaves the host as it is.
  | refused _ _ _ ih => exact ih

/-- What is appended to an open file is refused only for want of room. -/
theorem Script.ensures_append_open {handle : Handle} {data : Bytes}
    (opens : host.disk.OpensFile handle) :
    (Script.call (.append handle data)).Ensures .ample (fun _ => True)
      (fun reply _ => reply = .ok ()) host := by
  obtain ⟨-, content, hcontent⟩ := opens
  refine ensures_call (fun _ _ => trivial) ?_
  rintro reply after (⟨answer, room⟩ | ⟨refused, -⟩)
  · simp only [Host.answer, Disk.append, Disk.modify, hcontent, Host.settle] at answer
    split at answer
    · cases answer
      exact absurd (Or.inl rfl) (room trivial _ rfl)
    · cases answer
      rfl
  · exact refused.elim

namespace Action

variable {α β : Type} {may : Host → Call → Prop} {path : Path} {handle : Handle}

/-- The parts of a run that succeeds. -/
theorem endures_bind_ok {action : Action α} {f : α → Action β} {value : β}
    (run : (action >>= f).run.Endures may host (.ok value) after) :
    ∃ middle between, action.run.Endures may host (.ok middle) between ∧
      (f middle).run.Endures may between (.ok value) after := by
  rcases endures_bind run with ⟨_, h, _⟩ | h
  · cases h
  · exact h

theorem opensFile_of_endures (bounded : host.disk.Bounded)
    (run : (openFile path .keep).run.Endures may host (.ok handle) after) :
    after.disk.OpensFile handle := by
  obtain ⟨reply, between, hcall, hrest⟩ := Script.Endures.of_bind run
  cases reply with
  | error fault => cases hrest
  | ok opened =>
    cases hrest
    rcases hcall.of_call with hanswer | ⟨_, hfault, _⟩
    · exact Host.opensFile_of_answer bounded hanswer
    · cases hfault

end Action

end OrderedStore
