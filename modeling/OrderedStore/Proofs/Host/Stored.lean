import OrderedStore.Proofs.Host.Calls

/-!
# Files known by their paths

A file that can be found under a path can be opened under it, and is found there again when its
bytes were changed. The same is true of a file that was made under the path, and of one that was
opened in place of what stood there.

Main definitions:

- `Host.Stores`: a path leads to a file with a number and bytes.
- `Host.Makes`: a file can be made under a path.
- `Host.holding`: the host with a directory of given files.
-/

namespace OrderedStore

variable {conduct : Conduct} {stop : Host → Prop} {host after : Host} {path : Path}
  {place : Location} {id id' : Nat} {bytes bytes' : Bytes}

namespace Host

/-- A path leads to a file with a number and bytes. -/
structure Stores (host : Host) (path : Path) (place : Location) (id : Nat) (bytes : Bytes) :
    Prop where
  approach : ∃ directory step, host.disk.approach path = .ok (directory, step) ∧
    Disk.stepFrom directory step = .ok place
  bare : path.trailingSlash = false
  file : host.view.file? place = some (id, bytes)

theorem Stores.find (h : host.Stores path place id bytes) :
    ∃ content, host.disk.find path = .ok (place, id, .file content) ∧ content.toList = bytes := by
  obtain ⟨⟨directory, step, happroach, hstep⟩, hbare, hfile⟩ := h
  obtain ⟨content, hnode, hbytes⟩ := Disk.file?_eq_some_iff.1 hfile
  refine ⟨content, ?_, hbytes⟩
  exact Disk.find_eq_ok_iff.2 ⟨directory, step, happroach, hstep, hnode, by simp [hbare]⟩

/-- What is the content of a path is stored under it. -/
theorem content?_eq_some_iff :
    host.disk.content? path = some bytes ↔ ∃ place id, host.Stores path place id bytes := by
  constructor
  · intro h
    unfold Disk.content? at h
    split at h
    · rename_i place id content hfind
      obtain ⟨directory, step, happroach, hstep, hnode, hslash⟩ := Disk.find_eq_ok_iff.1 hfind
      obtain rfl := Option.some.inj h
      refine ⟨place, id, ⟨directory, step, happroach, hstep⟩, ?_, ?_⟩
      · exact Bool.eq_false_iff.2 fun htrue => hslash ⟨htrue, rfl⟩
      · exact Disk.file?_eq_some_iff.2 ⟨content, hnode, rfl⟩
    · cases h
  · rintro ⟨place, id, h⟩
    obtain ⟨content, hfind, rfl⟩ := h.find
    simp only [Disk.content?, hfind]

/-- A path is followed the same way where no directory is lost. -/
theorem approach_mono {found : Location × PathStep} (h : host.disk.approach path = .ok found)
    (base : after.view.base = host.view.base)
    (directories : ∀ place, host.view.directory place = true → after.view.directory place = true) :
    after.disk.approach path = .ok found := by
  obtain ⟨hcheck, hleads, hlast⟩ := Disk.approach_eq_ok_iff.1 h
  have hstart : after.view.startOf path = host.view.startOf path := by
    rw [View.startOf, View.startOf, base]
  refine Disk.approach_eq_ok_iff.2 ⟨hcheck, ?_, hlast⟩
  rw [hstart]
  exact hleads.mono directories

/-- A file is found where one was found before. -/
theorem Stores.change (h : host.Stores path place id bytes)
    (same : host.view.SameBut after.view place)
    (file : after.view.file? place = some (id', bytes')) : after.Stores path place id' bytes' where
  approach := by
    obtain ⟨directory, step, happroach, hstep⟩ := h.approach
    refine ⟨directory, step, approach_mono happroach same.base fun other hdirectory => ?_, hstep⟩
    rwa [same.directory]
  bare := h.bare
  file := file

end Host

/-- A host with one file, of any bytes that fit into a file. -/
theorem Host.exists_storing (small : bytes.length ≤ Disk.sizeLimit) :
    ∃ host : Host, host.Sound ∧ host.disk.content? (.ofText "file") = some bytes := by
  obtain ⟨made, hmade, hput⟩ : ∃ made : Host, made.Sound ∧
      made.view = Host.empty.view.put ["file"] (some (Host.empty.disk.fresh, [])) :=
    ⟨_, @Sound.createFile _ [] "file" sound_empty rfl rfl⟩
  have hsize : (Content.ofArray bytes.toArray).size ≤ Disk.sizeLimit := by
    rw [← Content.length_toList, Content.toList_ofArray]
    simpa using small
  obtain ⟨host, hsound, hview⟩ : ∃ host : Host, host.Sound ∧
      host.view = made.view.put ["file"] (some (Host.empty.disk.fresh, bytes)) := by
    have hset := hmade.setContent (View.file?_of_eq_put hput) hsize
    rw [Content.toList_ofArray] at hset
    exact ⟨_, hset⟩
  refine ⟨host, hsound, content?_eq_some_iff.2 ⟨["file"], Host.empty.disk.fresh, ?_⟩⟩
  refine ⟨⟨[], .entry "file", ?_, rfl⟩, rfl, View.file?_of_eq_put hview⟩
  refine Disk.approach_eq_ok_iff.2 ⟨by decide +kernel, ?_, by decide +kernel⟩
  rw [hview, hput]
  exact .stay rfl

/-- The host on which a directory at the top holds some files. -/
def Host.holding (directory : String) : List (String × Bytes) → Host
  | [] => { Host.empty with disk := Host.empty.disk.create ([] ++ [directory]) .directory }
  | (name, bytes) :: files =>
    { holding directory files with
      disk := (holding directory files).disk.create ([directory] ++ [name])
        (.file (.ofArray bytes.toArray)) }

/-- Such a host has the directory, and in it these files at most. -/
theorem Host.holds {directory : String} {files : List (String × Bytes)}
    (nodup : (files.map Prod.fst).Nodup)
    (small : ∀ file ∈ files, file.2.length ≤ Disk.sizeLimit) :
    (holding directory files).Sound ∧ (holding directory files).view.directory [directory] = true ∧
      ∀ name, (holding directory files).view.directory ([directory] ++ [name]) = false ∧
        ∀ id bytes, (holding directory files).view.file? ([directory] ++ [name]) =
          some (id, bytes) → (name, bytes) ∈ files := by
  induction files with
  | nil =>
    obtain ⟨hsound, hview⟩ := @Sound.createDirectory _ [] directory sound_empty rfl rfl
    change view (holding directory []) = _ at hview
    have hnode : ∀ name, Host.empty.disk.node? ([directory] ++ [name]) = none :=
      fun name => Disk.node?_empty [directory] name []
    refine ⟨hsound, ?_, fun name => ⟨?_, fun id bytes hfile => ?_⟩⟩
    · rw [hview]
      exact Function.update_self ..
    · have hempty : Host.empty.disk.isDirectory ([directory] ++ [name]) = false := by
        rw [Disk.isDirectory_eq, hnode]
        rfl
      rw [hview]
      exact (Function.update_of_ne (by simp) ..).trans hempty
    · have hempty : Host.empty.disk.file? ([directory] ++ [name]) = some (id, bytes) := by
        rw [hview] at hfile
        exact hfile
      obtain ⟨content, hsome, _⟩ := Disk.file?_eq_some_iff.1 hempty
      cases (hnode name).symm.trans hsome
  | cons file files ih =>
    obtain ⟨name, bytes⟩ := file
    obtain ⟨hname, hnodup⟩ := List.nodup_cons.1 nodup
    obtain ⟨hbytes, hsmall⟩ := List.forall_mem_cons.1 small
    obtain ⟨hsound, hdirectory, hfiles⟩ := ih hnodup hsmall
    have hfree : (holding directory files).disk.node? ([directory] ++ [name]) = none := by
      rcases Disk.node?_cases (holding directory files).disk ([directory] ++ [name]) with
        ⟨hnone, _⟩ | ⟨_, _, _, hdir⟩ | ⟨_, _, _, hfile, _⟩
      · exact hnone
      · cases (hfiles name).1.symm.trans hdir
      · exact absurd (List.mem_map.2 ⟨_, (hfiles name).2 _ _ hfile, rfl⟩) hname
    have hsize : (Content.ofArray bytes.toArray).size ≤ Disk.sizeLimit := by
      rw [← Content.length_toList, Content.toList_ofArray]
      exact hbytes
    obtain ⟨hcreated, hview⟩ :=
      hsound.createFilled hfree (Disk.isDirectory_iff.1 hdirectory) hsize
    change view (holding directory ((name, bytes) :: files)) = _ at hview
    refine ⟨hcreated, by rw [hview]; exact hdirectory, fun other => ⟨?_, ?_⟩⟩
    · rw [hview]
      exact (hfiles other).1
    · intro id bytes' hfile
      rw [hview] at hfile
      by_cases heq : [directory] ++ [other] = [directory] ++ [name]
      · rw [heq, View.put_file?_self, Content.toList_ofArray] at hfile
        cases hfile
        have hother : other = name := by simpa using heq
        exact List.mem_cons.2 (Or.inl (by rw [hother]))
      · rw [View.put_file?_of_ne _ _ heq] at hfile
        exact List.mem_cons_of_mem _ ((hfiles other).2 id bytes' hfile)

/-- A stored file is not made again. -/
theorem Host.Stores.openOrCreate (stored : host.Stores path place id bytes) (sound : host.Sound) :
    host.disk.openOrCreate path false = .ok (⟨id⟩, host.disk) := by
  obtain ⟨⟨directory, step, happroach, hstep⟩, hbare, hfile⟩ := stored
  obtain ⟨content, hnode, _⟩ := Disk.file?_eq_some_iff.1 hfile
  have hparent : host.disk.kindAt? directory = some .directory :=
    Disk.isDirectory_iff.1 (Disk.approach_eq_ok_iff.1 happroach).2.1.directory
  have hplace : host.disk.kindAt? place = some .file := by
    simp [Disk.kindAt?, hnode, Node.kind]
  -- Other steps than to an entry lead to a directory.
  have hentry : ∃ name, step = .entry name := by
    cases step with
    | entry name => exact ⟨name, rfl⟩
    | here =>
      cases hstep
      rw [hparent] at hplace
      cases hplace
    | up =>
      cases hstep
      have hprefix : directory.dropLast.isPrefixOf directory = true :=
        List.isPrefixOf_iff_prefix.2 (List.dropLast_prefix directory)
      rw [sound.disk.directory_of_prefix hprefix hparent] at hplace
      cases hplace
  obtain ⟨name, rfl⟩ := hentry
  simp [Disk.openOrCreate, happroach, hstep, hbare, hnode, bind, Except.bind, pure, Except.pure]

/-- A file is opened as the host in memory does it. -/
theorem Action.ensures_openFile_answered {ok : Handle → Host → Prop} {err : Error → Host → Prop}
    {mode : OpenMode} {handle : Handle}
    (answer : host.answer (.openFile path mode) = (.ok handle, after)) (same : stop host)
    (failed : ¬ conduct.Steady → ∀ e, err e host) (done : stop after ∧ ok handle after) :
    (Action.openFile path mode).Ensures conduct stop ok err host := by
  apply ensures_attempt_answer (c := .openFile path mode) (fun reply => reply) (fun _ => rfl)
  · refine torn_cases same ?_ fun later torn => by simpa [Host.Torn] using torn
    rw [answer]
    exact done.1
  · exact failed
  · rw [answer]
    exact Or.inr ⟨handle, rfl, done.2⟩

/-- A stored file is opened for reading, or for writing at its places. -/
theorem Action.ensures_openFile_stored {ok : Handle → Host → Prop} {err : Error → Host → Prop}
    {mode : OpenMode} (hmode : mode = .read ∨ mode = .update)
    (stored : host.Stores path place id bytes) (same : stop host)
    (failed : ¬ conduct.Steady → ∀ e, err e host) (done : ok ⟨id⟩ host) :
    (Action.openFile path mode).Ensures conduct stop ok err host := by
  obtain ⟨content, hfind, _⟩ := stored.find
  refine ensures_openFile_answered ?_ same failed ⟨same, done⟩
  rcases hmode with rfl | rfl <;>
    simp [Host.answer, Disk.openFile, hfind, Except.map, bind, Except.bind, pure, Except.pure,
      Host.settleOpened]

/-- A stored file is opened for writing behind its end. -/
theorem Action.ensures_openFile_keep_stored {ok : Handle → Host → Prop}
    {err : Error → Host → Prop} (sound : host.Sound) (stored : host.Stores path place id bytes)
    (same : stop host) (failed : ¬ conduct.Steady → ∀ e, err e host) (done : ok ⟨id⟩ host) :
    (Action.openFile path .keep).Ensures conduct stop ok err host := by
  refine ensures_openFile_answered ?_ same failed ⟨same, done⟩
  simp [Host.answer, Disk.openFile, stored.openOrCreate sound, Host.settleOpened]

/-- A path under which a file is opened that is made if it is missing leads to that file. -/
theorem Disk.openOrCreate_eq_ok {handle : Handle} {disk : Disk} {replace : Bool}
    (sound : host.Sound) (h : host.disk.openOrCreate path replace = .ok (handle, disk)) :
    ∃ directory name place, host.disk.approach path = .ok (directory, .entry name) ∧
      Disk.stepFrom directory (.entry name) = .ok place ∧ path.trailingSlash = false ∧
      host.view.directory place = false ∧ Host.Sound { host with disk } ∧
      Host.view { host with disk } = host.view.put place
        (some (handle.id, if replace then [] else host.view.bytesAt place)) := by
  obtain ⟨⟨directory, step⟩, happroach, h⟩ := bind_eq_ok_iff.1 h
  have hparent : host.disk.kindAt? directory = some .directory :=
    isDirectory_iff.1 (approach_eq_ok_iff.1 happroach).2.1.directory
  simp only at h
  split at h
  · rename_i name hslash
    obtain ⟨place, hstep, h⟩ := bind_eq_ok_iff.1 h
    refine ⟨directory, name, place, happroach, hstep, hslash, ?_⟩
    rcases node?_cases host.disk place with ⟨hnode, hfile, hdirectory⟩ |
      ⟨id, hnode, _⟩ | ⟨id, content, hnode, hfile, hdirectory⟩
    · rw [hnode] at h
      cases h
      simp only [stepFrom] at hstep
      split at hstep
      · cases hstep
      · cases hstep
        have hbytes : host.view.bytesAt (directory ++ [name]) = [] := by
          simp [View.bytesAt, Host.view, hfile]
        rw [hbytes, ite_self]
        exact ⟨hdirectory, sound.createFile hnode hparent⟩
    · rw [hnode] at h
      cases h
    · rw [hnode] at h
      cases h
      refine ⟨hdirectory, ?_⟩
      have hfile : host.view.file? place = some (id, content.toList) := hfile
      cases replace with
      | true => exact sound.setContent hfile (Nat.zero_le _)
      | false =>
        refine ⟨sound, ?_⟩
        rw [View.bytesAt_of_file? hfile]
        exact (View.put_eq_self _ _ _ hfile).symm
  · cases h

/-- Where a file is opened in place of what stood there, an empty one is stored under the path. -/
theorem Action.ensures_openFile_replace_stored {ok : Handle → Host → Prop}
    {err : Error → Host → Prop} (sound : host.Sound) (same : stop host)
    (failed : ∀ e, err e host)
    (done : ∀ (place : Location) (id : Nat) (after : Host), after.Sound →
      after.Stores path place id [] → stop after ∧ ok ⟨id⟩ after) :
    (Action.openFile path .replace).Ensures conduct stop ok err host := by
  cases hopened : host.disk.openOrCreate path true with
  | error fault =>
    apply ensures_openFile_refused ?_ same failed
    exact ⟨fault, by simp [Host.answer, Disk.openFile, hopened, Host.settleOpened]⟩
  | ok pair =>
    obtain ⟨handle, disk⟩ := pair
    obtain ⟨directory, name, place, happroach, hstep, hslash, _, hsound, hview⟩ :=
      Disk.openOrCreate_eq_ok sound hopened
    -- Nothing of an emptied file is on disk for sure.
    obtain ⟨hforced, hview'⟩ := hsound.setForced handle (View.file?_of_eq_put hview) 0
    rw [hview] at hview'
    have hdone := done place handle.id _ hforced
      { approach := ⟨directory, .entry name, Host.approach_mono happroach (by rw [hview']; rfl)
          fun other hother => by rw [hview']; exact hother, hstep⟩
        bare := hslash
        file := by rw [hview']; exact View.put_file?_self .. }
    refine ensures_openFile_answered ?_ same (fun _ => failed) hdone
    simp [Host.answer, Disk.openFile, hopened, Host.settleOpened, Host.settleCut]

/-- A path under which a file can be made, where there is none yet. -/
structure Host.Makes (host : Host) (path : Path) : Prop where
  absent : host.disk.content? path = none
  opens : ∃ opened, host.disk.openOrCreate path false = .ok opened

/-- Nothing stands where a file is made, and an empty one is stored there then. -/
theorem Host.Makes.made (h : host.Makes path) (sound : host.Sound) :
    host.disk.kind? path = none ∧ ∃ place id disk,
      host.disk.openOrCreate path false = .ok (⟨id⟩, disk) ∧ Host.Sound { host with disk } ∧
      Host.Stores { host with disk } path place id [] := by
  obtain ⟨habsent, ⟨⟨id⟩, disk⟩, hopened⟩ := h
  obtain ⟨directory, name, place, happroach, hstep, hslash, hdirectory, hsound, hview⟩ :=
    Disk.openOrCreate_eq_ok sound hopened
  have hnode : host.disk.node? place = none := by
    rcases Disk.node?_cases host.disk place with ⟨hnode, _⟩ | ⟨_, _, _, hdirectory'⟩ |
      ⟨_, content, hnode, _⟩
    · exact hnode
    · exact absurd (hdirectory.symm.trans hdirectory') (by decide)
    · have hfind : host.disk.find path = .ok (place, _, .file content) :=
        Disk.find_eq_ok_iff.2 ⟨directory, _, happroach, hstep, hnode, by simp [hslash]⟩
      simp [Disk.content?, hfind] at habsent
  have hfile : host.view.bytesAt place = [] := by
    simp [View.bytesAt, Host.view, Disk.file?, hnode]
  refine ⟨?_, place, id, disk, hopened, hsound, ?_⟩
  · simp [Disk.kind?, Disk.find, happroach, hstep, hnode, bind, Except.bind]
  · simp only [hfile, ite_self] at hview
    exact {
      approach := ⟨directory, .entry name, Host.approach_mono happroach (by rw [hview]; rfl)
        fun other hother => by rw [hview]; exact hother, hstep⟩
      bare := hslash
      file := by rw [hview]; exact View.put_file?_self .. }

theorem Action.ensures_openFile_made {ok : Handle → Host → Prop} {err : Error → Host → Prop}
    (steady : conduct.Steady) (sound : host.Sound) (makes : host.Makes path) (same : stop host)
    (done : ∀ (place : Location) (id : Nat) (after : Host), after.Sound →
      after.Stores path place id [] → stop after ∧ ok ⟨id⟩ after) :
    (Action.openFile path .keep).Ensures conduct stop ok err host := by
  obtain ⟨_, place, id, disk, hopened, hsound, hstored⟩ := makes.made sound
  refine ensures_openFile_answered ?_ same (absurd steady)
    (done place id { host with disk } hsound hstored)
  simp [Host.answer, Disk.openFile, hopened, Host.settleOpened]

end OrderedStore
