import OrderedStore.Proofs.Host.Change
import OrderedStore.Proofs.Host.Conduct

/-!
# Rules for calls

One rule for every call: what it may leave behind where the process dies in it, what it leaves and
answers when it succeeds, and that it fails only with an excuse. The rules speak of the view of the
host only; a handle is known by the file whose number it has.
-/

namespace OrderedStore

variable {conduct : Conduct} {stop : Host → Prop} {host : Host} {path : Path} {target : Location}
  {id : Nat} {bytes : Bytes} {handle : Handle}

/-- The bytes of a file after `data` was written from `offset` on. -/
def Bytes.overwrite (bytes : Bytes) (offset : Nat) (data : Bytes) : Bytes :=
  bytes.take offset ++ data ++ bytes.drop (offset + data.length)

theorem Bytes.overwrite_length (bytes data : Bytes) :
    Bytes.overwrite bytes bytes.length data = bytes ++ data := by
  simp [overwrite, List.drop_of_length_le (Nat.le_add_right bytes.length data.length)]

/-- A number that no file, no lock and no forced size of a view knows. -/
def View.Unused (v : View) (id : Nat) : Prop :=
  id ∉ v.locked ∧ v.forced id = 0 ∧ ∀ place bytes, v.file? place ≠ some (id, bytes)

/-- A call that cannot fail is answered, and leaves nothing half done. -/
theorem Script.ensures_call_of_sure {c : Call} {post : c.Reply → Host → Prop}
    (sure : ¬ c.Fallible) (same : stop host)
    (done : stop (host.answer c).2 ∧ post (host.answer c).1 (host.answer c).2) :
    (Script.call c).Ensures conduct stop post host := by
  refine ensures_call ?_ ?_
  · rintro after (rfl | rfl | torn)
    · exact same
    · exact done.1
    -- The calls that can be torn apart are among those that can fail.
    · cases c with
      | append handle data => exact absurd trivial sure
      | write handle offset data => exact absurd trivial sure
      | makeDirectories path => exact absurd trivial sure
      | _ => exact torn.elim
  · intro reply after outcome
    have answer := outcome.eq_answer sure
    rw [answer] at done
    exact done.2

theorem Script.ensures_size {post : Nat → Host → Prop}
    (file : host.view.file? target = some (handle.id, bytes)) (same : stop host)
    (done : post bytes.length host) :
    (Script.call (.size handle)).Ensures conduct stop post host := by
  obtain ⟨content, hcontent, rfl⟩ := Disk.contentOf_of_file? file
  have hanswer : host.answer (.size handle) = (content.toList.length, host) := by
    simp [Host.answer, Disk.sizeOf, hcontent]
  refine ensures_call_of_sure (fun h => h) same ?_
  rw [hanswer]
  exact ⟨same, done⟩

namespace Action

variable {α : Type} {err : Error → Host → Prop}

/-! ## Refusals -/

/-- A call that the host in memory refuses only for want of room. -/
theorem ensures_attempt_answer {c : Call} {ok : α → Host → Prop}
    (decode : c.Reply → Except SystemFault α)
    (hdecode : ∀ reply, c.fault? reply = faultOf (decode reply))
    (torn : ∀ after, host.Torn c after → stop after)
    (refused : ¬ conduct.Steady → ∀ e, err e host)
    (answered :
      (∃ fault, decode (host.answer c).1 = .error fault ∧ fault.IsShortage ∧
        (host.answer c).2 = host ∧ (conduct.Excuse → ∀ e, err e host)) ∨
      ∃ value, decode (host.answer c).1 = .ok value ∧ ok value (host.answer c).2) :
    (attempt (.step c fun reply => .done (decode reply))).Ensures conduct stop ok err host := by
  refine ensures_attempt ⟨torn, ?_⟩
  intro reply after outcome
  refine Script.ensures_done_iff.2 ?_
  -- A reply is either a refusal of a call that could be done, or that of the host in memory.
  rcases outcome.settle with ⟨unsteady, isSome, rfl⟩ | ⟨answer, shortage⟩
  · rw [hdecode] at isSome
    cases hreply : decode reply with
    | ok value => simp [hreply, faultOf] at isSome
    | error fault => exact refused unsteady _
  · rw [answer] at answered
    rcases answered with ⟨fault, hfault, hshort, rfl, failed⟩ | ⟨value, hvalue, hok⟩
    · have excuse := shortage fault (by rw [hdecode, hfault]; rfl) hshort
      rw [hfault]
      exact failed excuse _
    · rw [hvalue]
      exact hok

/-- A call that fails the same way whoever refuses it. -/
theorem ensures_attempt_call {c : Call} {ok : α → Host → Prop}
    (decode : c.Reply → Except SystemFault α)
    (hdecode : ∀ reply, c.fault? reply = faultOf (decode reply))
    (torn : ∀ after, host.Torn c after → stop after)
    (failed : conduct.Excuse → ∀ e, err e host)
    (answered :
      (∃ fault, decode (host.answer c).1 = .error fault ∧ fault.IsShortage ∧
        (host.answer c).2 = host) ∨
      ∃ value, decode (host.answer c).1 = .ok value ∧ ok value (host.answer c).2) :
    (attempt (.step c fun reply => .done (decode reply))).Ensures conduct stop ok err host := by
  refine ensures_attempt_answer decode hdecode torn
    (fun unsteady => failed (Conduct.excuse_of_not_steady unsteady)) ?_
  rcases answered with ⟨fault, hfault, hshort, hsame⟩ | hvalue
  · exact Or.inl ⟨fault, hfault, hshort, hsame, failed⟩
  · exact Or.inr hvalue

/-- A call that leaves the host as it is, or as it answers it. -/
theorem torn_cases {c : Call} (same : stop host) (done : stop (host.answer c).2)
    (rest : ∀ after, host.Torn c after → after = host ∨ after = (host.answer c).2) :
    ∀ after, host.Torn c after → stop after := by
  intro after torn
  rcases rest after torn with rfl | rfl
  · exact same
  · exact done

/-! ## Names -/

theorem ensures_probe {ok : Option FileKind → Host → Prop} (same : stop host)
    (done : ok (host.disk.kind? path) host) :
    (probe path).Ensures conduct stop ok err host :=
  ensures_ofScript (Script.ensures_call_of_sure (fun h => h) same ⟨same, done⟩)

/-- What is found under the path of an entry. -/
theorem kind?_of_names (names : host.view.Names path target) :
    (path.Overlong ∧ host.disk.kind? path = none) ∨
      (¬ path.Overlong ∧ host.disk.kind? path = host.view.kind? target) := by
  rcases Disk.find_of_names names with ⟨hlong, hfind⟩ | ⟨hshort, hfind⟩
  · exact Or.inl ⟨hlong, by simp [Disk.kind?, hfind]⟩
  · refine Or.inr ⟨hshort, ?_⟩
    rw [← Host.kindAt?_eq_kind?, Disk.kind?, hfind, Disk.kindAt?]
    cases host.disk.node? target <;> rfl

/-- A path that is too long leads nowhere. -/
theorem ensures_probe_entry {ok : Option FileKind → Host → Prop}
    (names : host.view.Names path target) (same : stop host)
    (long : path.Overlong → ok none host)
    (done : ¬ path.Overlong → ok (host.view.kind? target) host) :
    (probe path).Ensures conduct stop ok err host := by
  refine ensures_probe same ?_
  rcases kind?_of_names names with ⟨hlong, hkind⟩ | ⟨hshort, hkind⟩
  · rw [hkind]
    exact long hlong
  · rw [hkind]
    exact done hshort

theorem ensures_removeFile {ok : Unit → Host → Prop} (sound : host.Sound)
    (names : host.view.Names path target) (file : host.view.file? target = some (id, bytes))
    (same : stop host) (failed : conduct.Excuse → ∀ e, err e host)
    (done : ∀ after : Host, after.Sound → after.view = host.view.put target none →
      stop after ∧ ok () after) :
    (removeFile path).Ensures conduct stop ok err host := by
  obtain ⟨content, hnode, _⟩ := Disk.file?_eq_some_iff.1 file
  have hanswer : host.answer (.removeFile path) = (.error .nameTooLong, host) ∨
      host.answer (.removeFile path) = (.ok (), { host with disk := host.disk.unlink target }) := by
    rcases Disk.approach_of_names names with ⟨_, happroach | ⟨_, _, happroach, hstep⟩⟩ |
      ⟨_, hslash, _, _, happroach, hstep, _⟩
    · exact Or.inl (by simp [Host.answer, Disk.removeFile, happroach, bind, Except.bind,
        Host.withDisk])
    · exact Or.inl (by simp [Host.answer, Disk.removeFile, happroach, hstep, bind, Except.bind,
        Host.withDisk])
    · exact Or.inr (by simp [Host.answer, Disk.removeFile, happroach, hstep, hnode, hslash, bind,
        Except.bind, pure, Except.pure, Host.withDisk])
  have hunlink := sound.unlinkFile file
  have hdone := done _ hunlink.1 hunlink.2
  refine ensures_attempt_call (c := .removeFile path) (fun reply => reply) (fun _ => rfl) ?_
    failed ?_
  · refine torn_cases same ?_ fun after torn => by simpa [Host.Torn] using torn
    rcases hanswer with h | h <;> rw [h]
    · exact same
    · exact hdone.1
  · rcases hanswer with h | h <;> rw [h]
    · exact Or.inl ⟨_, rfl, Or.inr rfl, rfl⟩
    · exact Or.inr ⟨(), rfl, hdone.2⟩

/-- The host in memory renames a file unless a path is too long. -/
theorem answer_rename {path' : Path} {target' : Location} (sound : host.Sound)
    (names : host.view.Names path target) (names' : host.view.Names path' target')
    (hne : target ≠ target') (file : host.view.file? target = some (id, bytes))
    (clear : host.view.directory target' = false) :
    host.answer (.rename path path') = (.error .nameTooLong, host) ∨
    host.answer (.rename path path') =
        (.ok (), { host with disk := host.disk.move target target' }) ∧ ¬ path'.Overlong ∧
      ∃ place name, target' = place ++ [name] ∧ host.disk.kindAt? place = some .directory := by
  obtain ⟨content, hnode, _⟩ := Disk.file?_eq_some_iff.1 file
  have hclean : '\x00' ∉ path'.text.toList := by
    obtain ⟨dir, place, name, hreaches, plain, rfl, rfl⟩ := names'
    simpa using View.contains_text_child hreaches plain
  have hkind : host.disk.kindAt? target = some .file := by
    simp [Disk.kindAt?, hnode, Node.kind]
  rcases Disk.approach_of_names names with ⟨_, happroach | ⟨_, _, happroach, hstep⟩⟩ |
    ⟨_, hslash, place, name, happroach, hstep, hplace, hparent⟩
  · exact Or.inl (by simp [Host.answer, Disk.rename, happroach, hclean, bind, Except.bind,
      Host.withDisk])
  · rcases Disk.approach_of_names names' with ⟨_, happroach' | ⟨_, _, happroach', _⟩⟩ |
      ⟨_, _, _, _, happroach', _⟩ <;>
    exact Or.inl (by simp [Host.answer, Disk.rename, happroach, hstep, happroach', hclean, bind,
      Except.bind, Host.withDisk])
  -- Both paths are followed before the names are looked at.
  · rcases Disk.approach_of_names names' with ⟨_, happroach' | ⟨_, _, happroach', hstep'⟩⟩ |
      ⟨hshort', hslash', place', name', happroach', hstep', hplace', hparent'⟩
    · exact Or.inl (by simp [Host.answer, Disk.rename, happroach, happroach', hclean, bind,
        Except.bind, Host.withDisk])
    · exact Or.inl (by simp [Host.answer, Disk.rename, happroach, happroach', hstep, hstep',
        hkind, hclean, bind, Except.bind, Host.withDisk])
    · refine Or.inr ⟨?_, hshort', place', name', hplace', hparent'⟩
      -- Neither place lies above a directory: one holds a file, the other no directory.
      have habove : target.isPrefixOf place' = false := by
        rw [Bool.eq_false_iff]
        intro hinitial
        have hname := Disk.find?_ne_none_of_kindAt? hparent'
        have heq := (sound.disk.isPrefixOf_iff hnode hname).1 hinitial
        rw [heq, hkind] at hparent'
        cases hparent'
      have habove' : target'.isPrefixOf place = false := by
        rw [Bool.eq_false_iff]
        intro hinitial
        have hdir := sound.disk.directory_of_prefix hinitial hparent
        rw [← Disk.isDirectory_iff] at hdir
        exact absurd (clear.symm.trans hdir) (by decide)
      have hkind' : host.disk.kindAt? target' = none ∨
          host.disk.kindAt? target' = some .file := by
        rw [Host.kindAt?_eq_kind?, View.kind?, clear]
        split <;> simp
      rcases hkind' with hkind' | hkind' <;>
        simp [Host.answer, Disk.rename, Disk.renameAt, happroach, happroach', hstep, hstep',
          hkind, hkind', hclean, hslash, hslash', habove, habove', hne, bind, Except.bind,
          Host.withDisk]

/-- A file is renamed where no directory stands. -/
theorem ensures_rename {ok : Unit → Host → Prop} {path' : Path} {target' : Location}
    (sound : host.Sound) (names : host.view.Names path target)
    (names' : host.view.Names path' target') (hne : target ≠ target')
    (file : host.view.file? target = some (id, bytes))
    (clear : host.view.directory target' = false)
    (same : stop host) (failed : conduct.Excuse → ∀ e, err e host)
    (done : ∀ after : Host, ¬ path'.Overlong → after.Sound →
      after.view = (host.view.put target none).put target' (some (id, bytes)) →
      stop after ∧ ok () after) :
    (rename path path').Ensures conduct stop ok err host := by
  have hanswer := answer_rename sound names names' hne file clear
  refine ensures_attempt_call (c := .rename path path') (fun reply => reply) (fun _ => rfl) ?_
    failed ?_
  · refine torn_cases same ?_ fun after torn => by simpa [Host.Torn] using torn
    rcases hanswer with h | ⟨h, hshort, place, name, rfl, hparent⟩ <;> rw [h]
    · exact same
    · have hmove := sound.moveFile file hne hparent clear
      exact (done _ hshort hmove.1 hmove.2).1
  · rcases hanswer with h | ⟨h, hshort, place, name, rfl, hparent⟩ <;> rw [h]
    · exact Or.inl ⟨_, rfl, Or.inr rfl, rfl⟩
    · have hmove := sound.moveFile file hne hparent clear
      exact Or.inr ⟨(), rfl, (done _ hshort hmove.1 hmove.2).2⟩

/-! ## Opening files -/

/-- A file that is there is opened for reading, or for writing at its places. -/
theorem ensures_openFile_present {ok : Handle → Host → Prop} {mode : OpenMode}
    (hmode : mode = .read ∨ mode = .update) (names : host.view.Names path target)
    (file : host.view.file? target = some (id, bytes)) (same : stop host)
    (failed : conduct.Excuse → path.Overlong ∨ ¬ conduct.Steady → ∀ e, err e host)
    (done : ¬ path.Overlong → ok ⟨id⟩ host) :
    (openFile path mode).Ensures conduct stop ok err host := by
  obtain ⟨content, hnode, _⟩ := Disk.file?_eq_some_iff.1 file
  have hanswer : (path.Overlong ∧
        host.answer (.openFile path mode) = (.error .nameTooLong, host)) ∨
      (¬ path.Overlong ∧ host.answer (.openFile path mode) = (.ok ⟨id⟩, host)) := by
    rcases Disk.find_of_names names with ⟨hlong, hfind⟩ | ⟨hshort, hfind⟩
    · refine Or.inl ⟨hlong, ?_⟩
      rcases hmode with rfl | rfl <;>
        simp [Host.answer, Disk.openFile, hfind, Except.map, bind, Except.bind,
          Host.settleOpened]
    · rw [hnode] at hfind
      refine Or.inr ⟨hshort, ?_⟩
      rcases hmode with rfl | rfl <;>
        simp [Host.answer, Disk.openFile, hfind, Except.map, bind, Except.bind, pure, Except.pure,
          Host.settleOpened]
  refine ensures_attempt_answer (c := .openFile path mode) (fun reply => reply) (fun _ => rfl) ?_
    (fun unsteady => failed (Conduct.excuse_of_not_steady unsteady) (Or.inr unsteady)) ?_
  · refine torn_cases same ?_ fun after torn => by simpa [Host.Torn] using torn
    rcases hanswer with ⟨_, h⟩ | ⟨_, h⟩ <;> rw [h] <;> exact same
  · rcases hanswer with ⟨hlong, h⟩ | ⟨hshort, h⟩ <;> rw [h]
    · exact Or.inl ⟨_, rfl, Or.inr rfl, rfl, fun excuse => failed excuse (Or.inl hlong)⟩
    · exact Or.inr ⟨⟨id⟩, rfl, done hshort⟩

/-- The ways of opening a file that make it where it is missing. -/
def Makes (mode : OpenMode) : Prop :=
  mode = .keep ∨ mode = .replace

/-- A call that the host in memory refuses. -/
theorem ensures_attempt_refused {c : Call} {ok : α → Host → Prop}
    (decode : c.Reply → Except SystemFault α)
    (hdecode : ∀ reply, c.fault? reply = faultOf (decode reply))
    (torn : ∀ after, host.Torn c after → stop after) (failed : ∀ e, err e host)
    (refused : ∃ fault, decode (host.answer c).1 = .error fault ∧ (host.answer c).2 = host) :
    (attempt (.step c fun reply => .done (decode reply))).Ensures conduct stop ok err host := by
  obtain ⟨fault, hfault, hsame⟩ := refused
  refine ensures_attempt ⟨torn, ?_⟩
  intro reply after outcome
  refine Script.ensures_done_iff.2 ?_
  -- The host in memory fails for a reason, and may be refused the call without one.
  rcases outcome.settle with ⟨_, isSome, rfl⟩ | ⟨answer, _⟩
  · rw [hdecode] at isSome
    cases hreply : decode reply with
    | ok value => simp [hreply, faultOf] at isSome
    | error fault => exact failed _
  · rw [answer] at hfault hsame
    obtain rfl : after = host := hsame
    rw [show decode reply = .error fault from hfault]
    exact failed _

/-- Nothing is opened that the host in memory refuses to open. -/
theorem ensures_openFile_refused {ok : Handle → Host → Prop} {mode : OpenMode}
    (refused : ∃ fault, host.answer (.openFile path mode) = (.error fault, host))
    (same : stop host) (failed : ∀ e, err e host) :
    (openFile path mode).Ensures conduct stop ok err host := by
  obtain ⟨fault, hanswer⟩ := refused
  refine ensures_attempt_refused (c := .openFile path mode) (fun reply => reply) (fun _ => rfl) ?_
    failed ⟨fault, by rw [hanswer], by rw [hanswer]⟩
  refine torn_cases same ?_ fun after torn => by simpa [Host.Torn] using torn
  rw [hanswer]
  exact same

/-- A file that cannot be made is not opened. -/
theorem answer_openFile_refused {mode : OpenMode} (makes : Makes mode)
    (refused : ∀ replace, ∃ fault, host.disk.openOrCreate path replace = .error fault) :
    ∃ fault, host.answer (.openFile path mode) = (.error fault, host) := by
  rcases makes with rfl | rfl
  · obtain ⟨fault, h⟩ := refused false
    exact ⟨fault, by simp [Host.answer, Disk.openFile, h, Host.settleOpened]⟩
  · obtain ⟨fault, h⟩ := refused true
    exact ⟨fault, by simp [Host.answer, Disk.openFile, h, Host.settleOpened]⟩

/-- A path to an entry can be followed up to its last step only in a directory. -/
theorem reaches_of_approach {dir : Path} {name : String} {place : Location} {step : PathStep}
    (h : host.disk.approach (dir.child name) = .ok (place, step)) :
    step = .entry name ∧ host.view.Reaches dir place := by
  obtain ⟨hcheck, hleads, hstep⟩ := Disk.approach_eq_ok_iff.1 h
  rw [Path.steps_child, List.dropLast_concat] at hleads
  rw [Path.steps_child, List.getLast?_concat] at hstep
  have hclean := Disk.clean_of_checkPath hcheck
  refine ⟨hstep.symm, ?_, hleads⟩
  rcases View.toList_text_child dir name with htext | htext <;> simp_all

/-- No file is opened in a directory that no path leads to. -/
theorem ensures_openFile_lost {ok : Handle → Host → Prop} {dir : Path} {name : String}
    {mode : OpenMode} (makes : Makes mode) (lost : ∀ place, ¬ host.view.Reaches dir place)
    (same : stop host) (failed : ∀ e, err e host) :
    (openFile (dir.child name) mode).Ensures conduct stop ok err host := by
  refine ensures_openFile_refused (answer_openFile_refused makes fun replace => ?_) same failed
  cases happroach : host.disk.approach (dir.child name) with
  | error fault => exact ⟨fault, by simp [Disk.openOrCreate, happroach, bind, Except.bind]⟩
  | ok pair => exact absurd (reaches_of_approach happroach).2 (lost pair.1)

/-- No file is made where a directory stands. -/
theorem ensures_openFile_blocked {ok : Handle → Host → Prop} {mode : OpenMode} (makes : Makes mode)
    (names : host.view.Names path target) (blocked : host.view.directory target = true)
    (same : stop host) (failed : ∀ e, err e host) :
    (openFile path mode).Ensures conduct stop ok err host := by
  obtain ⟨id, hnode⟩ := Disk.isDirectory_iff_node?.1 blocked
  refine ensures_openFile_refused (answer_openFile_refused makes fun replace => ?_) same failed
  rcases Disk.approach_of_names names with ⟨_, happroach | ⟨_, _, happroach, hstep⟩⟩ |
    ⟨_, hslash, _, _, happroach, hstep, _⟩
  · exact ⟨.nameTooLong, by simp [Disk.openOrCreate, happroach, bind, Except.bind]⟩
  · have htrailing : path.trailingSlash = false := by
      obtain ⟨dir, place, name, _, _, rfl, _⟩ := names
      rfl
    exact ⟨.nameTooLong,
      by simp [Disk.openOrCreate, happroach, hstep, htrailing, bind, Except.bind]⟩
  · exact ⟨.isDirectory,
      by simp [Disk.openOrCreate, happroach, hstep, hslash, hnode, bind, Except.bind]⟩

/-- The host in memory opens a file for writing, which is made if it is missing. -/
theorem openOrCreate_cases (sound : host.Sound) (replace : Bool)
    (names : host.view.Names path target) (clear : host.view.directory target = false) :
    host.disk.openOrCreate path replace = .error .nameTooLong ∨
    (¬ path.Overlong ∧ ∃ id disk, host.disk.openOrCreate path replace = .ok (⟨id⟩, disk) ∧
      Host.Sound { host with disk } ∧
      ((∃ bytes, host.view.file? target = some (id, bytes) ∧
        Host.view { host with disk } =
          host.view.put target (some (id, if replace then [] else bytes)) ∧
        (replace = false → disk = host.disk)) ∨
      (host.view.file? target = none ∧ host.view.Unused id ∧
        Host.view { host with disk } = host.view.put target (some (id, []))))) := by
  rcases Disk.approach_of_names names with ⟨_, happroach | ⟨_, _, happroach, hstep⟩⟩ |
    ⟨hshort, hslash, place, name, happroach, hstep, rfl, hparent⟩
  · exact Or.inl (by simp [Disk.openOrCreate, happroach, bind, Except.bind])
  · have htrailing : path.trailingSlash = false := by
      obtain ⟨dir, place, name, _, _, rfl, _⟩ := names
      rfl
    exact Or.inl (by simp [Disk.openOrCreate, happroach, hstep, htrailing, bind, Except.bind])
  · refine Or.inr ⟨hshort, ?_⟩
    rcases Disk.node?_cases host.disk (place ++ [name]) with ⟨hnode, hfile, _⟩ |
      ⟨_, _, _, hdir⟩ | ⟨id, content, hnode, hfile, _⟩
    -- A missing file gets a number that nothing knows yet.
    · have hcreate := sound.createFile hnode hparent
      refine ⟨host.disk.fresh, _, ?_, hcreate.1, Or.inr ⟨hfile, sound.fresh, hcreate.2⟩⟩
      simp [Disk.openOrCreate, happroach, hstep, hslash, hnode, bind, Except.bind, pure,
        Except.pure]
    -- No directory stands in the way.
    · exact absurd (clear.symm.trans hdir) (by decide)
    · cases replace with
      | false =>
        refine ⟨id, host.disk, ?_, sound, Or.inl ⟨content.toList, hfile, ?_, fun _ => rfl⟩⟩
        · simp [Disk.openOrCreate, happroach, hstep, hslash, hnode, bind, Except.bind, pure,
            Except.pure]
        · exact (View.put_eq_self (v := host.view) _ _ hfile).symm
      | true =>
        have hempty : Content.empty.size ≤ Disk.sizeLimit := Nat.zero_le _
        have hset := sound.setContent hfile hempty
        refine ⟨id, _, ?_, hset.1, Or.inl ⟨content.toList, hfile, hset.2, ?_⟩⟩
        · simp [Disk.openOrCreate, happroach, hstep, hslash, hnode, bind, Except.bind, pure,
            Except.pure]
        · intro h
          cases h

/-- A file is opened for writing behind what it holds, and made if it is missing. -/
theorem ensures_openFile_keep {ok : Handle → Host → Prop} (sound : host.Sound)
    (names : host.view.Names path target) (clear : host.view.directory target = false)
    (same : stop host) (failed : conduct.Excuse → ∀ e, err e host)
    (found : ∀ id bytes, ¬ path.Overlong → host.view.file? target = some (id, bytes) →
      ok ⟨id⟩ host)
    (made : ∀ (id : Nat) (after : Host), ¬ path.Overlong → host.view.file? target = none →
      host.view.Unused id → after.Sound → after.view = host.view.put target (some (id, [])) →
      stop after ∧ ok ⟨id⟩ after) :
    (openFile path .keep).Ensures conduct stop ok err host := by
  have hanswer : host.answer (.openFile path .keep) = (.error .nameTooLong, host) ∨
      ∃ id after, host.answer (.openFile path .keep) = (.ok ⟨id⟩, after) ∧
        stop after ∧ ok ⟨id⟩ after := by
    rcases openOrCreate_cases sound false names clear with
      h | ⟨hshort, id, disk, h, hsound, hcases⟩
    · exact Or.inl (by simp [Host.answer, Disk.openFile, h, Host.settleOpened])
    · refine Or.inr ⟨id, { host with disk }, ?_, ?_⟩
      · simp [Host.answer, Disk.openFile, h, Host.settleOpened]
      · rcases hcases with ⟨bytes, hfile, _, hsame⟩ | ⟨hnone, hunused, hview⟩
        · rw [hsame rfl]
          exact ⟨same, found id bytes hshort hfile⟩
        · exact made id _ hshort hnone hunused hsound hview
  refine ensures_attempt_call (c := .openFile path .keep) (fun reply => reply) (fun _ => rfl) ?_
    failed ?_
  · refine torn_cases same ?_ fun after torn => by simpa [Host.Torn] using torn
    rcases hanswer with h | ⟨id, after, h, hstop, _⟩ <;> rw [h]
    · exact same
    · exact hstop
  · rcases hanswer with h | ⟨id, after, h, _, hok⟩ <;> rw [h]
    · exact Or.inl ⟨_, rfl, Or.inr rfl, rfl⟩
    · exact Or.inr ⟨⟨id⟩, rfl, hok⟩

/-- A file is opened for writing from its beginning, emptied, and made if it is missing. -/
theorem ensures_openFile_replace {ok : Handle → Host → Prop} (sound : host.Sound)
    (names : host.view.Names path target) (clear : host.view.directory target = false)
    (same : stop host) (failed : conduct.Excuse → ∀ e, err e host)
    (done : ∀ (id : Nat) (after : Host), ((∃ bytes, host.view.file? target = some (id, bytes)) ∨
        host.view.file? target = none ∧ host.view.Unused id) →
      after.Sound → after.view = (host.view.put target (some (id, []))).force id 0 →
      stop after ∧ ok ⟨id⟩ after) :
    (openFile path .replace).Ensures conduct stop ok err host := by
  have hanswer : host.answer (.openFile path .replace) = (.error .nameTooLong, host) ∨
      ∃ id after, host.answer (.openFile path .replace) = (.ok ⟨id⟩, after) ∧
        stop after ∧ ok ⟨id⟩ after := by
    rcases openOrCreate_cases sound true names clear with
      h | ⟨_, id, disk, h, hsound, hcases⟩
    · exact Or.inl (by simp [Host.answer, Disk.openFile, h, Host.settleOpened])
    · have hview : Host.view { host with disk } = host.view.put target (some (id, [])) := by
        rcases hcases with ⟨bytes, _, hview, _⟩ | ⟨_, _, hview⟩
        · exact hview
        · exact hview
      -- Nothing of an emptied file is on disk for sure.
      have hforce := hsound.setForced ⟨id⟩ (View.file?_of_eq_put hview) 0
      rw [hview] at hforce
      refine Or.inr ⟨id, _, ?_, done id _ ?_ hforce.1 hforce.2⟩
      · simp [Host.answer, Disk.openFile, h, Host.settleOpened, Host.settleCut]
      · rcases hcases with ⟨bytes, hfile, _⟩ | ⟨hnone, hunused, _⟩
        · exact Or.inl ⟨bytes, hfile⟩
        · exact Or.inr ⟨hnone, hunused⟩
  refine ensures_attempt_call (c := .openFile path .replace) (fun reply => reply) (fun _ => rfl) ?_
    failed ?_
  · refine torn_cases same ?_ fun after torn => by simpa [Host.Torn] using torn
    rcases hanswer with h | ⟨id, after, h, hstop, _⟩ <;> rw [h]
    · exact same
    · exact hstop
  · rcases hanswer with h | ⟨id, after, h, _, hok⟩ <;> rw [h]
    · exact Or.inl ⟨_, rfl, Or.inr rfl, rfl⟩
    · exact Or.inr ⟨⟨id⟩, rfl, hok⟩

/-! ## Reading and writing open files -/

section Files

variable (file : host.view.file? target = some (handle.id, bytes))

include file

theorem contentOf_handle :
    ∃ content, host.disk.contentOf handle = .ok content ∧ content.toList = bytes :=
  Disk.contentOf_of_file? file

theorem ensures_size {ok : Nat → Host → Prop} (same : stop host) (done : ok bytes.length host) :
    (size handle).Ensures conduct stop ok err host :=
  ensures_ofScript (Script.ensures_size file same done)

theorem ensures_read {ok : Bytes → Host → Prop} (sound : host.Sound) {offset count : Nat}
    (inside : offset ≤ bytes.length) (same : stop host)
    (done : ok ((bytes.drop offset).take count) host) :
    (read handle offset count).Ensures conduct stop ok err host := by
  obtain ⟨content, hcontent, hbytes⟩ := contentOf_handle file
  have hlimit : ¬ Disk.sizeLimit < offset :=
    Nat.not_lt.2 (Nat.le_trans inside (sound.length_le file))
  have hanswer : host.answer (.read handle offset count) =
      (.ok ((bytes.drop offset).take count), host) := by
    simp [Host.answer, Disk.read, hlimit, hcontent, Content.slice_eq, hbytes, bind, Except.bind,
      pure, Except.pure]
  refine ensures_attempt (Script.ensures_call_of_sure (fun h => h) same ?_)
  rw [hanswer]
  exact ⟨same, done⟩

theorem ensures_readExactly {ok : Bytes → Host → Prop} (sound : host.Sound) {offset count : Nat}
    (inside : offset + count ≤ bytes.length) (same : stop host)
    (done : ok ((bytes.drop offset).take count) host) :
    (readExactly handle offset count).Ensures conduct stop ok err host := by
  have hlength : ((bytes.drop offset).take count).length = count := by
    rw [List.length_take, List.length_drop]
    omega
  refine Ensures.bind (ensures_read file sound (by omega) same ?_)
  rw [hlength, if_neg (Nat.lt_irrefl count)]
  exact done

theorem answer_write (sound : host.Sound) {offset : Nat} (inside : offset ≤ bytes.length)
    (data : Bytes) :
    host.answer (.write handle offset data) = (.error .fileTooLarge, host) ∨
    ∃ after, host.answer (.write handle offset data) = (.ok (), after) ∧ after.Sound ∧
      after.view = host.view.put target (some (handle.id, bytes.overwrite offset data)) := by
  obtain ⟨content, hcontent, rfl⟩ := contentOf_handle file
  have hlimit : ¬ Disk.sizeLimit < offset :=
    Nat.not_lt.2 (Nat.le_trans inside (sound.length_le file))
  rw [Content.length_toList] at inside
  -- The system refuses a write that would make the file too large, and writes nothing of it.
  by_cases hlarge : Disk.sizeLimit < max content.size (offset + data.length)
  · exact Or.inl (by simp only [Host.answer, Disk.write, Disk.modify, hlimit, hcontent, hlarge,
      if_true, if_false, Host.settle])
  · have hlist : (content.overwritten offset data).toList =
        content.toList.overwrite offset data := by
      by_cases hdata : data = []
      · simp [hdata, Content.overwritten_nil, Bytes.overwrite]
      · rw [Content.toList_overwritten _ _ hdata, Content.toList_resized,
          Nat.sub_eq_zero_of_le inside]
        simp [Bytes.overwrite]
    have hsize : (content.overwritten offset data).size ≤ Disk.sizeLimit := by
      rw [← Content.length_toList, hlist]
      simp only [Bytes.overwrite, List.length_append, List.length_take, List.length_drop,
        Content.length_toList]
      omega
    have hset := sound.setContent file hsize
    refine Or.inr ⟨_, ?_, hset.1, by rw [hset.2, hlist]⟩
    simp only [Host.answer, Disk.write, Disk.modify, hlimit, hcontent, hlarge, if_false,
      Host.settle]

/-- What is written lies inside the file or directly behind it. -/
theorem ensures_write {ok : Unit → Host → Prop} (sound : host.Sound) {offset : Nat}
    (inside : offset ≤ bytes.length) {data : Bytes}
    (same : stop host) (failed : conduct.Excuse → ∀ e, err e host)
    (torn : ∀ (count : Nat) (after : Host), after.Sound →
      after.view =
        host.view.put target (some (handle.id, bytes.overwrite offset (data.take count))) →
      stop after)
    (done : ∀ after : Host, after.Sound →
      after.view = host.view.put target (some (handle.id, bytes.overwrite offset data)) →
      ok () after) :
    (write handle offset data).Ensures conduct stop ok err host := by
  have hstop : ∀ count, stop (host.answer (.write handle offset (data.take count))).2 := by
    intro count
    rcases answer_write file sound inside (data.take count) with h | ⟨after, h, hsound, hview⟩ <;>
      rw [h]
    · exact same
    · exact torn count after hsound hview
  refine ensures_attempt_call (c := .write handle offset data) (fun reply => reply) (fun _ => rfl)
    ?_ failed ?_
  -- The process dies before the write, after it, or when `count` bytes are written.
  · rintro after (rfl | rfl | ⟨count, rfl⟩)
    · exact same
    · have := hstop data.length
      rwa [List.take_length] at this
    · exact hstop count
  · rcases answer_write file sound inside data with h | ⟨after, h, hsound, hview⟩ <;> rw [h]
    · exact Or.inl ⟨_, rfl, Or.inl rfl, rfl⟩
    · exact Or.inr ⟨(), rfl, done after hsound hview⟩

theorem answer_append (sound : host.Sound) (data : Bytes) :
    host.answer (.append handle data) = (.error .fileTooLarge, host) ∨
    ∃ after, host.answer (.append handle data) = (.ok (), after) ∧ after.Sound ∧
      after.view = host.view.put target (some (handle.id, bytes ++ data)) := by
  obtain ⟨content, hcontent, rfl⟩ := contentOf_handle file
  by_cases hlarge : Disk.sizeLimit < content.size + data.length
  · exact Or.inl (by simp only [Host.answer, Disk.append, Disk.modify, hcontent, hlarge, if_true,
      Host.settle])
  · have hlist : (content ++ Content.ofArray data.toArray).toList = content.toList ++ data := by
      simp
    have hsize : (content ++ Content.ofArray data.toArray).size ≤ Disk.sizeLimit := by
      rw [← Content.length_toList, hlist, List.length_append, Content.length_toList]
      omega
    have hset := sound.setContent file hsize
    refine Or.inr ⟨_, ?_, hset.1, by rw [hset.2, hlist]⟩
    simp only [Host.answer, Disk.append, Disk.modify, hcontent, hlarge, if_false, Host.settle]

theorem ensures_append {post : Except SystemFault Unit → Host → Prop} (sound : host.Sound)
    {data : Bytes} (same : stop host)
    (failed : conduct.Excuse → ∀ fault, post (.error fault) host)
    (torn : ∀ (count : Nat) (after : Host), after.Sound →
      after.view = host.view.put target (some (handle.id, bytes ++ data.take count)) → stop after)
    (done : ∀ after : Host, after.Sound →
      after.view = host.view.put target (some (handle.id, bytes ++ data)) → post (.ok ()) after) :
    (Script.call (.append handle data)).Ensures conduct stop post host := by
  have hstop : ∀ count, stop (host.answer (.append handle (data.take count))).2 := by
    intro count
    rcases answer_append file sound (data.take count) with h | ⟨after, h, hsound, hview⟩ <;> rw [h]
    · exact same
    · exact torn count after hsound hview
  refine Script.ensures_call ?_ ?_
  -- As for a write: a first part of the data may be there.
  · rintro after (rfl | rfl | ⟨count, rfl⟩)
    · exact same
    · have := hstop data.length
      rwa [List.take_length] at this
    · exact hstop count
  · intro reply after outcome
    rcases outcome.settle with ⟨unsteady, isSome, rfl⟩ | ⟨answer, shortage⟩
    · cases reply with
      | ok value => simp [Call.fault?, faultOf] at isSome
      | error fault => exact failed (Conduct.excuse_of_not_steady unsteady) fault
    · rcases answer_append file sound data with h | ⟨after', h, hsound, hview⟩
      · rw [h] at answer
        cases answer
        exact failed (shortage _ rfl (Or.inl rfl)) _
      · rw [h] at answer
        cases answer
        exact done after hsound hview

/-- The host in memory cuts a file. -/
theorem answer_resize (sound : host.Sound) {size : Nat} (inside : size ≤ bytes.length) :
    ∃ after, host.answer (.resize handle size) = (.ok (), after) ∧ after.Sound ∧
      after.view = (host.view.put target (some (handle.id, bytes.take size))).force handle.id
        (min size (host.view.forced handle.id)) := by
  obtain ⟨content, hcontent, hbytes⟩ := contentOf_handle file
  have hlimit : ¬ Disk.sizeLimit < size :=
    Nat.not_lt.2 (Nat.le_trans inside (sound.length_le file))
  have hlist : (content.resized size).toList = bytes.take size := by
    rw [Content.toList_resized, hbytes, ← Content.length_toList, hbytes,
      Nat.sub_eq_zero_of_le inside]
    simp
  have hsize : (content.resized size).size ≤ Disk.sizeLimit := by
    rw [← Content.length_toList, hlist, List.length_take]
    omega
  have hset := sound.setContent file hsize
  rw [hlist] at hset
  -- What was forced stays so, as far as it is still in the file.
  have hforce := hset.1.setForced handle (View.file?_of_eq_put hset.2)
    (min size (host.forcedSize handle))
  rw [hset.2] at hforce
  refine ⟨_, ?_, hforce.1, hforce.2⟩
  simp only [Host.answer, Disk.resize, Disk.modify, hcontent, hlimit, if_false, Host.settleCut]

theorem ensures_resize {ok : Unit → Host → Prop} (sound : host.Sound) {size : Nat}
    (inside : size ≤ bytes.length) (same : stop host)
    (failed : ¬ conduct.Steady → ∀ e, err e host)
    (done : ∀ after : Host, after.Sound →
      after.view = (host.view.put target (some (handle.id, bytes.take size))).force handle.id
        (min size (host.view.forced handle.id)) →
      stop after ∧ ok () after) :
    (resize handle size).Ensures conduct stop ok err host := by
  obtain ⟨after, hanswer, hsound, hview⟩ := answer_resize file sound inside
  have hdone := done after hsound hview
  refine ensures_attempt_answer (c := .resize handle size) (fun reply => reply) (fun _ => rfl) ?_
    failed ?_
  · refine torn_cases same ?_ fun after torn => by simpa [Host.Torn] using torn
    rw [hanswer]
    exact hdone.1
  · rw [hanswer]
    exact Or.inr ⟨(), rfl, hdone.2⟩

theorem ensures_sync {ok : Unit → Host → Prop} (sound : host.Sound) (same : stop host)
    (done : ∀ after : Host, after.Sound → after.view = host.view.force handle.id bytes.length →
      stop after ∧ ok () after) :
    (sync handle).Ensures conduct stop ok err host := by
  obtain ⟨content, hcontent, rfl⟩ := contentOf_handle file
  have hset := sound.setForced handle file content.toList.length
  have hdone := done _ hset.1 hset.2
  have hanswer : host.answer (.sync handle) =
      (.ok (), host.setForced handle content.toList.length) := by
    simp only [Host.answer, Disk.sizeOf, hcontent, Content.length_toList]
  refine ensures_attempt (Script.ensures_call_of_sure (fun h => h) same ?_)
  rw [hanswer]
  exact hdone

end Files

end Action

/-! ## Locks, messages and the clock -/

namespace Script

/-- A lock that nobody has is taken. -/
theorem ensures_lock {post : Except SystemFault Unit → Host → Prop} (sound : host.Sound)
    (file : host.view.file? target = some (handle.id, bytes)) (same : stop host)
    (taken : handle.id ∈ host.view.locked → post (.error .wouldBlock) host)
    (done : handle.id ∉ host.view.locked → ∀ after : Host, after.Sound →
      after.view = host.view.withLocked (handle.id :: host.view.locked) →
      stop after ∧ post (.ok ()) after) :
    (Script.call (.lock handle)).Ensures conduct stop post host := by
  have hanswer : host.answer (.lock handle) =
      if handle.id ∈ host.locked then (.error .wouldBlock, host)
      else (.ok (), { host with locked := handle.id :: host.locked }) := rfl
  refine ensures_call_of_sure (fun h => h) same ?_
  by_cases hmem : handle.id ∈ host.locked
  · rw [hanswer, if_pos hmem]
    exact ⟨same, taken hmem⟩
  · have hset := sound.relock (handle.id :: host.locked) (by
      intro id hid
      rcases List.mem_cons.1 hid with rfl | hid
      · exact sound.id_lt file
      · exact sound.locked id hid)
    rw [hanswer, if_neg hmem]
    exact done hmem _ hset.1 hset.2

theorem ensures_unlock {post : Unit → Host → Prop} (sound : host.Sound) (same : stop host)
    (done : ∀ after : Host, after.Sound →
      after.view = host.view.withLocked (host.view.locked.filter (· ≠ handle.id)) →
      stop after ∧ post () after) :
    (Script.call (.unlock handle)).Ensures conduct stop post host := by
  have hset := sound.relock (host.locked.filter (· ≠ handle.id)) (by
    intro id hid
    exact sound.locked id (List.mem_filter.1 hid).1)
  exact ensures_call_of_sure (fun h => h) same (done _ hset.1 hset.2)

/-- Messages do not show in the view of a host. -/
theorem ensures_report {post : Unit → Host → Prop} {message : String} (sound : host.Sound)
    (same : stop host)
    (done : ∀ after : Host, after.Sound → after.view = host.view → stop after ∧ post () after) :
    (Script.call (.report message)).Ensures conduct stop post host := by
  refine ensures_call_of_sure (fun h => h) same ?_
  exact done { host with messages := message :: host.messages }
    ⟨sound.disk, sound.locked, sound.forced⟩ rfl

theorem ensures_clock {post : UInt64 → Host → Prop} (same : stop host)
    (done : ∀ now, post now host) :
    (Script.call .clock).Ensures conduct stop post host :=
  ensures_call_of_sure (fun h => h) same ⟨same, done _⟩

end Script

end OrderedStore
