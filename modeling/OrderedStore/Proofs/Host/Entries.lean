import OrderedStore.Proofs.Host.Directories
import OrderedStore.Proofs.Host.Hindrance

/-!
# Rules for whatever stands in a directory

What calls on the entries of a directory do when nothing is known of what stands there, and not
even whether the directory can be reached: where something is in the way they are refused.

Main statements: `Action.ensures_openFile_keep_any`, `Action.ensures_removeFile_any`,
`Action.ensures_list_there`, `Action.Ensures.endured`.
-/

namespace OrderedStore

namespace Action

variable {α : Type} {conduct : Conduct} {stop : Host → Prop} {err : Error → Host → Prop}
  {host after : Host} {dir path path' : Path} {place target target' : Location} {name : String}
  {id : Nat} {bytes : Bytes}

/-- Where the entry of a directory is made, and what is in its way otherwise. -/
theorem ensures_openFile_any {ok : Handle → Host → Prop} {mode : OpenMode} (makes : Makes mode)
    (plain : PlainName name) (home : host.view.ending dir = place)
    (same : stop host) (failed : ∀ e, err e host)
    (clear : host.view.Reaches dir place → host.view.directory (place ++ [name]) = false →
      (openFile (dir.child name) mode).Ensures conduct stop ok err host) :
    (openFile (dir.child name) mode).Ensures conduct stop ok err host := by
  by_cases hreaches : host.view.Reaches dir place
  · by_cases hdir : host.view.directory (place ++ [name]) = true
    · exact ensures_openFile_blocked makes (hreaches.names plain) hdir same failed
    · exact clear hreaches (by simpa using hdir)
  · refine ensures_openFile_lost makes (fun other hother => hreaches ?_) same failed
    rwa [← home, ← hother.eq_ending]

/-- A file is opened for writing behind what it holds, and made if it is missing. -/
theorem ensures_openFile_keep_any {ok : Handle → Host → Prop} (sound : host.Sound)
    (plain : PlainName name) (home : host.view.ending dir = place)
    (same : stop host) (failed : ∀ e, err e host)
    (found : ∀ id bytes, host.view.Reaches dir place →
      host.view.file? (place ++ [name]) = some (id, bytes) → ok ⟨id⟩ host)
    (made : ∀ (id : Nat) (after : Host), host.view.Reaches dir place →
      host.view.file? (place ++ [name]) = none → host.view.Unused id → after.Sound →
      after.view = host.view.put (place ++ [name]) (some (id, [])) → stop after ∧ ok ⟨id⟩ after) :
    (openFile (dir.child name) .keep).Ensures conduct stop ok err host := by
  refine ensures_openFile_any (Or.inl rfl) plain home same failed fun hreaches hclear => ?_
  exact ensures_openFile_keep sound (hreaches.names plain) hclear same (fun _ => failed)
    (fun id bytes _ => found id bytes hreaches) fun id after _ => made id after hreaches

/-- A directory is not opened for writing. -/
theorem ensures_openFile_update_blocked {ok : Handle → Host → Prop}
    (names : host.view.Names path target) (blocked : host.view.directory target = true)
    (same : stop host) (failed : ∀ e, err e host) :
    (openFile path .update).Ensures conduct stop ok err host := by
  obtain ⟨id, hnode⟩ := Disk.isDirectory_iff_node?.1 blocked
  refine ensures_openFile_refused ?_ same failed
  rcases Disk.find_of_names names with ⟨_, hfind⟩ | ⟨_, hfind⟩
  · exact ⟨.nameTooLong, by simp [Host.answer, Disk.openFile, hfind, bind, Except.bind,
      Host.settleOpened]⟩
  · exact ⟨.isDirectory, by simp [Host.answer, Disk.openFile, hfind, hnode, bind, Except.bind,
      Host.settleOpened]⟩

/-- What is removed is a file in the directory that its path leads to. -/
theorem ensures_removeFile_any {ok : Unit → Host → Prop} (sound : host.Sound)
    (home : host.view.ending dir = place) (same : stop host)
    (failed : ∀ e, err e host)
    (done : ∀ after : Host, after.Sound → after.view = host.view.put (place ++ [name]) none →
      stop after ∧ ok () after) :
    (removeFile (dir.child name)).Ensures conduct stop ok err host := by
  have hanswer : (∃ fault, host.answer (.removeFile (dir.child name)) = (.error fault, host)) ∨
      ∃ after, host.answer (.removeFile (dir.child name)) = (.ok (), after) ∧ stop after ∧
        ok () after := by
    cases happroach : host.disk.approach (dir.child name) with
    | error fault =>
      exact Or.inl ⟨fault, by simp [Host.answer, Disk.removeFile, happroach, bind, Except.bind,
        Host.withDisk]⟩
    | ok pair =>
      obtain ⟨other, step⟩ := pair
      obtain ⟨rfl, hreaches⟩ := reaches_of_approach happroach
      obtain rfl : other = place := hreaches.eq_ending.trans home
      cases hstep : Disk.stepFrom other (.entry name) with
      | error fault =>
        exact Or.inl ⟨fault, by simp [Host.answer, Disk.removeFile, happroach, hstep, bind,
          Except.bind, Host.withDisk]⟩
      | ok target =>
        obtain rfl : other ++ [name] = target := View.lead_eq_of_stepFrom hstep
        rcases Disk.node?_cases host.disk (other ++ [name]) with ⟨hnode, _⟩ | ⟨_, hnode, _⟩ |
          ⟨id, content, hnode, hfile, _⟩
        · exact Or.inl ⟨.notFound, by simp [Host.answer, Disk.removeFile, happroach, hstep, hnode,
            bind, Except.bind, Host.withDisk]⟩
        · exact Or.inl ⟨.isDirectory, by simp [Host.answer, Disk.removeFile, happroach, hstep,
            hnode, bind, Except.bind, Host.withDisk]⟩
        · have hunlink := @Host.Sound.unlinkFile _ (other ++ [name]) _ _ sound hfile
          refine Or.inr ⟨_, ?_, done _ hunlink.1 hunlink.2⟩
          simp [Host.answer, Disk.removeFile, happroach, hstep, hnode, bind, Except.bind, pure,
            Except.pure, Host.withDisk]
  have hstop : ∀ after, host.Torn (.removeFile (dir.child name)) after → stop after := by
    refine torn_cases same ?_ fun after torn => by simpa [Host.Torn] using torn
    rcases hanswer with ⟨_, h⟩ | ⟨after, h, hstop, _⟩ <;> rw [h]
    · exact same
    · exact hstop
  rcases hanswer with ⟨fault, h⟩ | ⟨after, h, _, hok⟩
  · exact ensures_attempt_refused (c := .removeFile (dir.child name)) (fun reply => reply)
      (fun _ => rfl) hstop failed ⟨fault, by rw [h], by rw [h]⟩
  · refine ensures_attempt_call (c := .removeFile (dir.child name)) (fun reply => reply)
      (fun _ => rfl) hstop (fun _ => failed) ?_
    rw [h]
    exact Or.inr ⟨(), rfl, hok⟩

/-- No file gets the name of a directory. -/
theorem ensures_rename_blocked {ok : Unit → Host → Prop} (names : host.view.Names path target)
    (names' : host.view.Names path' target') (file : host.view.file? target = some (id, bytes))
    (blocked : host.view.directory target' = true) (same : stop host) (failed : ∀ e, err e host) :
    (rename path path').Ensures conduct stop ok err host := by
  obtain ⟨content, hnode, _⟩ := Disk.file?_eq_some_iff.1 file
  have hkind : host.disk.kindAt? target = some .file := by
    simp [Disk.kindAt?, hnode, Node.kind]
  have hkind' := Disk.isDirectory_iff.1 blocked
  have hne : target ≠ target' := by
    rintro rfl
    cases hkind.symm.trans hkind'
  have hanswer : ∃ fault, host.answer (.rename path path') = (.error fault, host) := by
    suffices hdisk : ∃ fault, host.disk.rename path path' = .error fault by
      obtain ⟨fault, h⟩ := hdisk
      exact ⟨fault, by simp [Host.answer, h, Host.withDisk]⟩
    unfold Disk.rename
    split
    · exact ⟨_, rfl⟩
    rcases Disk.approach_of_names names with ⟨_, h | ⟨_, _, h, hstep⟩⟩ | ⟨_, _, _, _, h, hstep, _⟩
    · exact ⟨.nameTooLong, by simp [h, bind, Except.bind]⟩
    · rcases Disk.approach_of_names names' with ⟨_, h' | ⟨_, _, h', _⟩⟩ | ⟨_, _, _, _, h', _⟩ <;>
        exact ⟨.nameTooLong, by simp [h, h', hstep, bind, Except.bind]⟩
    -- Both paths are followed before the names are looked at.
    · rcases Disk.approach_of_names names' with ⟨_, h' | ⟨_, _, h', hstep'⟩⟩ |
        ⟨_, _, _, _, h', hstep', _⟩
      · exact ⟨.nameTooLong, by simp [h, h', bind, Except.bind]⟩
      · exact ⟨.nameTooLong, by simp [h, h', hstep, hstep', hkind, bind, Except.bind]⟩
      · simp only [h, h', hstep, hstep', hkind, bind, Except.bind]
        split
        · exact ⟨_, rfl⟩
        split
        · exact ⟨_, rfl⟩
        split
        · exact ⟨_, rfl⟩
        · exact ⟨.isDirectory, by simp [Disk.renameAt, hne, hkind']⟩
  obtain ⟨fault, hanswer⟩ := hanswer
  refine ensures_attempt_refused (c := .rename path path') (fun reply => reply) (fun _ => rfl) ?_
    failed ⟨fault, by rw [hanswer], by rw [hanswer]⟩
  refine torn_cases same ?_ fun after torn => by simpa [Host.Torn] using torn
  rw [hanswer]
  exact same

/-- What can be listed is a directory. -/
theorem list_cases (host : Host) (path : Path) :
    (∃ fault, host.disk.list path = .error fault) ∨
      host.disk.kind? path = some .directory ∧
        host.disk.list path = .ok (host.disk.names.entries.filterMap
          fun entry => listed? host.disk (host.view.ending path) entry.1) := by
  cases hfind : host.disk.find path with
  | error fault => exact Or.inl ⟨fault, by simp [Disk.list, hfind, bind, Except.bind]⟩
  | ok triple =>
    obtain ⟨place, id, node⟩ := triple
    cases node with
    | file content => exact Or.inl ⟨.notDirectory, by simp [Disk.list, hfind, bind, Except.bind]⟩
    | directory =>
      have hkind : host.disk.kind? path = some .directory := by
        simp only [Disk.kind?, hfind, Node.kind]
      have hplace : place = host.view.ending path := by
        obtain ⟨middle, step, happroach, hstep, hnode, _⟩ := Disk.find_eq_ok_iff.1 hfind
        obtain ⟨_, hleads, rfl⟩ := Disk.approach_eq_ok_iff.1 happroach
        have hdir := Disk.isDirectory_iff_node?.2 ⟨id, hnode⟩
        have hlast := View.leads_iff_last.2 ⟨middle, hleads, hstep, hdir⟩
        exact hlast.eq_foldl
      refine Or.inr ⟨hkind, ?_⟩
      simp only [Disk.list, hfind, bind, Except.bind]
      rw [← hplace]
      rfl

/-- What is listed is the directory at which the path ends: every name once, with what stands
there. -/
theorem ensures_list_any {ok : List (String × FileKind) → Host → Prop} (sound : host.Sound)
    (home : host.view.ending path = target) (same : stop host) (failed : ∀ e, err e host)
    (done : host.view.Reaches path target → ∀ found : List (String × FileKind),
      (found.map Prod.fst).Nodup →
      (∀ name kind, (name, kind) ∈ found ↔ host.view.kind? (target ++ [name]) = some kind) →
      ok found host) :
    (list path).Ensures conduct stop ok err host := by
  have htorn : ∀ after, host.Torn (.list path) after → stop after :=
    torn_cases same same fun after torn => by simpa [Host.Torn] using torn
  rcases list_cases host path with ⟨fault, hanswer⟩ | ⟨hkind, hanswer⟩
  · exact ensures_attempt_refused (c := .list path) (fun reply => reply) (fun _ => rfl) htorn
      failed ⟨fault, hanswer, rfl⟩
  · have hreaches := Disk.reaches_of_kind? hkind
    rw [home] at hreaches hanswer
    obtain ⟨hnodup, hfull⟩ := listed_full sound target
    refine ensures_attempt_call (c := .list path) (fun reply => reply) (fun _ => rfl) htorn
      (fun _ => failed) (Or.inr ⟨_, hanswer, done hreaches _ hnodup hfull⟩)

/-! ## Directories that are there -/

/-- A directory that is there is not made again. -/
theorem answer_makeDirectories_there (there : host.disk.kind? path = some .directory) :
    host.answer (.makeDirectories path) = (.ok (), host) := by
  have hmake : host.disk.makeDirectory path = .error .alreadyExists := by
    obtain ⟨hcheck, place, hleads⟩ := Disk.kind?_eq_directory_iff.1 there
    obtain ⟨middle, hmiddle, hstep, hdir⟩ := View.leads_iff_last.1 hleads
    obtain ⟨id, hnode⟩ := Disk.isDirectory_iff_node?.1 hdir
    have happroach := Disk.approach_eq_ok_iff.2 ⟨hcheck, hmiddle, rfl⟩
    cases hlast : path.steps.getLast?.getD .here with
    | here => simp [Disk.makeDirectory, happroach, hlast, bind, Except.bind]
    | up => simp [Disk.makeDirectory, happroach, hlast, bind, Except.bind]
    | entry name =>
      rw [hlast] at hstep
      simp [Disk.makeDirectory, happroach, hlast, hstep, hnode, bind, Except.bind]
  have hmade : host.disk.makeDirectories path = (.ok (), host.disk) := by
    unfold Disk.makeDirectories Path.lineage
    split
    · rfl
    · simp [Disk.makeLineage, hmake, Disk.settleDirectory, there]
  simp [Host.answer, hmade, Host.settle]

theorem ensures_makeDirectories_there {ok : Unit → Host → Prop} (sound : host.Sound)
    (there : host.disk.kind? path = some .directory)
    (same : ∀ after : Host, after.Sound → after.view = host.view → stop after)
    (failed : ¬ conduct.Steady → ∀ e, err e host) (done : ok () host) :
    (makeDirectories path).Ensures conduct stop ok err host := by
  have hreaches := Disk.reaches_of_kind? there
  refine ensures_attempt_answer (c := .makeDirectories path) (fun reply => reply) (fun _ => rfl) ?_
    failed (Or.inr ⟨(), ?_⟩)
  · intro after torn
    obtain ⟨hsound, hgrown⟩ := torn_makeDirectories sound torn
    refine same after hsound ?_
    have hone : after.view = host.view ∨
        after.view = host.view.putDirectory (host.view.ending path) :=
      hgrown.eq_or fun other hother => Or.inl (directory_of_madeFor hreaches hother)
    rcases hone with heq | heq
    · exact heq
    · rw [heq, View.putDirectory_eq_self hreaches.directory]
  · rw [answer_makeDirectories_there there]
    exact ⟨rfl, done⟩

/-- What is listed is a directory that is there. -/
theorem ensures_list_there {ok : List (String × FileKind) → Host → Prop} (sound : host.Sound)
    (there : host.disk.kind? path = some .directory) (same : stop host)
    (failed : ¬ conduct.Steady → ∀ e, err e host)
    (done : ∀ found : List (String × FileKind), (found.map Prod.fst).Nodup →
      (∀ name kind, (name, kind) ∈ found ↔
        host.view.kind? (host.view.ending path ++ [name]) = some kind) → ok found host) :
    (list path).Ensures conduct stop ok err host := by
  obtain ⟨hnodup, hfull⟩ := listed_full sound (host.view.ending path)
  have hanswer : host.disk.list path = .ok (host.disk.names.entries.filterMap
      fun entry => listed? host.disk (host.view.ending path) entry.1) := by
    rcases list_cases host path with ⟨fault, hfault⟩ | ⟨_, hok⟩
    · -- Only what is no directory, or cannot be found, is not listed.
      unfold Disk.kind? at there
      split at there
      · rename_i place id node hfind
        cases node with
        | directory => simp [Disk.list, hfind, bind, Except.bind, pure, Except.pure] at hfault
        | file content => cases there
      · cases there
    · exact hok
  refine ensures_attempt_answer (c := .list path) (fun reply => reply) (fun _ => rfl) ?_ failed
    (Or.inr ⟨_, hanswer, done _ hnodup hfull⟩)
  exact torn_cases same same fun after torn => by simpa [Host.Torn] using torn

/-! ## Hindered runs -/

/-- What a hindered run of an action leads to. -/
theorem Ensures.endured {may : Host → Call → Prop} {action : Action α} {ok : α → Host → Prop}
    {bad : Host → Prop} {result : Except Error α}
    (h : action.Ensures .frail bad ok (fun _ => bad) host) (settles : action.Settles may host)
    (run : action.run.Endures may host result after) :
    (∃ value, result = .ok value ∧ ok value after) ∨ (∃ e, result = .error e) ∧ bad after := by
  rcases settles _ _ run with hyields | ⟨⟨e, rfl⟩, hstops⟩
  · have hlast := Script.Ensures.yields h hyields
    cases result with
    | ok value => exact Or.inl ⟨value, rfl, hlast⟩
    | error e => exact Or.inr ⟨⟨e, rfl⟩, hlast⟩
  · exact Or.inr ⟨⟨e, rfl⟩, Script.Ensures.stops h hstops⟩

/-- The first part of a hindered run fails, or the second part goes on where it ends. -/
theorem Ensures.endured_bind {β : Type} {may : Host → Call → Prop} {action : Action α}
    {f : α → Action β} {ok : α → Host → Prop} {bad : Host → Prop} {result : Except Error β}
    (h : action.Ensures .frail bad ok (fun _ => bad) host) (settles : action.Settles may host)
    (run : (action >>= f).run.Endures may host result after) :
    ((∃ e, result = .error e) ∧ bad after) ∨
      ∃ value between, ok value between ∧ (f value).run.Endures may between result after := by
  rcases endures_bind run with ⟨e, rfl, hfirst⟩ | ⟨value, between, hfirst, hrest⟩
  · rcases h.endured settles hfirst with ⟨_, hok, _⟩ | ⟨_, hbad⟩
    · cases hok
    · exact Or.inl ⟨⟨e, rfl⟩, hbad⟩
  · rcases h.endured settles hfirst with ⟨_, hok, hvalue⟩ | ⟨⟨_, he⟩, _⟩
    · cases hok
      exact Or.inr ⟨value, between, hvalue, hrest⟩
    · cases he

end Action

/-! ## Calls that change nothing -/

/-- A call that leaves every host as it is. -/
def Call.Kept (call : Call) : Prop :=
  ∀ host : Host, (host.answer call).2 = host

theorem Call.kept_probe (path : Path) : (Call.probe path).Kept :=
  fun _ => rfl

theorem Call.kept_openFile_read (path : Path) : (Call.openFile path .read).Kept := by
  intro host
  simp only [Host.answer, Disk.openFile]
  cases host.disk.find path <;> rfl

theorem Call.kept_read (handle : Handle) (offset count : Nat) :
    (Call.read handle offset count).Kept :=
  fun _ => rfl

/-- Such calls leave the host of a hindered run as it is. -/
theorem Script.Endures.eq_of_kept {α : Type} {may : Host → Call → Prop} {script : Script α}
    {host after : Host} {value : α} (run : script.Endures may host value after)
    (only : script.Only Call.Kept) : after = host := by
  induction run with
  | done => rfl
  | answered _ ih => rw [ih (only.2 _), only.1]
  | refused _ _ _ ih => exact ih (only.2 _)

theorem Action.endures_bind_kept {α β : Type} {may : Host → Call → Prop} {action : Action α}
    {f : α → Action β} {host after : Host} {result : Except Error β} (only : action.Only Call.Kept)
    (run : (action >>= f).run.Endures may host result after) :
    (∃ e, result = .error e) ∧ after = host ∨
      ∃ value, (f value).run.Endures may host result after := by
  rcases endures_bind run with ⟨e, rfl, hfirst⟩ | ⟨value, between, hfirst, hrest⟩
  · exact Or.inl ⟨⟨e, rfl⟩, hfirst.eq_of_kept only⟩
  · rw [hfirst.eq_of_kept only] at hrest
    exact Or.inr ⟨value, hrest⟩

end OrderedStore
