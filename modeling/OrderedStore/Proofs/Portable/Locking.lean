import OrderedStore.Proofs.Portable.Attempt
import OrderedStore.Proofs.Portable.Causes

/-!
# Opening any directory

An opening looks at the directory, locks it, and opens log and tables. Up to the lock nothing is
made but directories and the lock file, and a directory that is locked already is left alone. An
opening that fails behind the lock gives the lock up again.

Main definitions:

- `Portable.Barred`: directories in which no store can be opened.
- `Portable.Opened`: what an opening gives.

Main statements: `Portable.start_barred`, `Portable.start_latched`, `Portable.start_barring`,
`Portable.start_free`.
-/

namespace OrderedStore.Portable

open Log (Legible)
open TableStack (nameKind)

variable {may : Host → Call → Prop} {u v w : View} {host after : Host} {config : Config}
  {path : Path} {root : Location} {lockFile : Handle} {e : Error}

/-! ## The directory -/

/-- Two hosts that differ in directories that are new at most. -/
structure Calm (host after : Host) : Prop where
  sound : after.Sound
  grown : host.view.Grown after.view fun _ => True

theorem Calm.refl (sound : host.Sound) : Calm host host :=
  ⟨sound, .refl _ _⟩

theorem Calm.home (h : Calm host after) (home : host.view.ending path = root) :
    after.view.ending path = root := by
  rw [View.ending_congr h.grown.base, home]

/-- Looking at a directory makes it at most. -/
theorem prepare_endured {result : Except Error Unit} (sound : host.Sound)
    (run : (prepareDirectory config).run.Endures may host result after) : Calm host after := by
  have hmarker : ∀ {made : Host}, Calm host made →
      (do
        if (← Action.probe (config.path.child nativeMarker)).isSome then
          throw (.storage (.nativeData config.path.text)) : Action Unit).Ensures .frail
        (fun _ => True) (fun _ last => Calm host last) (fun _ last => Calm host last) made := by
    intro made hmade
    refine Action.Ensures.bind (Action.ensures_probe trivial ?_)
    split
    · exact hmade
    · exact hmade
  have hprepare : (prepareDirectory config).Ensures .frail (fun _ => True)
      (fun _ last => Calm host last) (fun _ last => Calm host last) host := by
    unfold prepareDirectory
    refine Action.Ensures.bind (Action.ensures_probe trivial ?_)
    split
    · split
      · refine Action.Ensures.bind
          (Action.ensures_makeDirectories sound fun made hsound hgrown => ?_)
        have hmade : Calm host made := ⟨hsound, hgrown.mono fun _ _ => trivial⟩
        exact ⟨trivial, hmarker hmade, fun _ => hmade⟩
      · exact .refl sound
    · exact .refl sound
    · exact hmarker (.refl sound)
  have hlast := Script.Ensures.yields hprepare
    (yields_of_foreseen run (only_prepareDirectory config))
  cases result with
  | ok done => exact hlast
  | error e => exact hlast

/-- Two views of which the second has more directories at most, and a lock file where none was. -/
structure Quiet (v : View) (root : Location) (w : View) : Prop where
  base : w.base = v.base
  kept : ∀ place, v.directory place = true → w.directory place = true
  file? : ∀ place, w.file? place = v.file? place ∨ place = lockPlace root ∧ v.file? place = none

theorem Quiet.refl (v : View) (root : Location) : Quiet v root v :=
  ⟨rfl, fun _ h => h, fun _ => Or.inl rfl⟩

theorem Quiet.of_put (none : v.file? (lockPlace root) = none) (file : Option (Nat × Bytes)) :
    Quiet v root (v.put (lockPlace root) file) where
  base := rfl
  kept _ h := h
  file? place := by
    by_cases heq : place = lockPlace root
    · exact Or.inr ⟨heq, heq ▸ none⟩
    · exact Or.inl (View.put_file?_of_ne _ _ heq)

theorem nameKind_lockName : nameKind lockName = .foreign := by
  decide +kernel

theorem lockPlace_ne_logPlace (root root' : Location) : lockPlace root ≠ logPlace root' := by
  intro heq
  exact absurd (entry_inj heq).2 (by decide)

theorem Quiet.content (h : Quiet v root w) : SameContent v w := by
  refine .of_idle fun place => (h.file? place).imp_right ?_
  rintro ⟨rfl, _⟩
  refine ⟨root, lockName, rfl, by decide, fun id hkind => ?_⟩
  cases hkind.symm.trans nameKind_lockName

theorem Quiet.spares (h : Quiet v root w) : Spares v root w where
  base := h.base
  kept := h.kept
  foreign dir name file _ _ hfile := by
    rcases h.file? (dir ++ [name]) with heq | ⟨_, hnone⟩
    · rw [heq, hfile]
    · cases hnone.symm.trans hfile

theorem Quiet.roomy (h : Quiet v root w) (roomy : Roomy v root) : Roomy w root := by
  refine roomy.congr (logSays_congr ?_) fun name id hkind => ?_
  · exact (h.file? (logPlace root)).resolve_right fun hnew => lockPlace_ne_logPlace _ _ hnew.1.symm
  · rcases h.file? (tablesPlace root ++ [name]) with heq | ⟨hplace, _⟩
    · exact heq
    · rw [(entry_inj hplace).2, nameKind_lockName] at hkind
      cases hkind

theorem Calm.quiet (h : Calm host after) (root : Location) : Quiet host.view root after.view :=
  ⟨h.grown.base, h.grown.kept, fun place => Or.inl (congrFun h.grown.file? place)⟩

theorem Left.of_quiet (sound : after.Sound) (quiet : Quiet v root after.view) :
    Left v root after.view.locked after :=
  ⟨sound, rfl, quiet.spares, fun _ => quiet.content⟩

theorem Quiet.trans (h : Quiet u root v) (h' : Quiet v root w) : Quiet u root w where
  base := h'.base.trans h.base
  kept place hdir := h'.kept place (h.kept place hdir)
  file? := by
    intro place
    rcases h'.file? place with heq | ⟨hplace, hnone⟩
    · rw [heq]
      exact h.file? place
    · rcases h.file? place with heq | hnew
      · exact Or.inr ⟨hplace, heq ▸ hnone⟩
      · exact Or.inr hnew

/-- What it takes to have locked a directory. -/
structure Locked (v : View) (path : Path) (root : Location) (lockFile : Handle) (host : Host) :
    Prop where
  sound : host.Sound
  quiet : Quiet v root host.view
  reaches : host.view.Reaches path root
  locks : Locks lockFile host.view root
  fresh : lockFile.id ∉ v.locked
  locked : host.view.locked = lockFile.id :: v.locked

theorem Locked.of_calm {prepared : Host} (h : Locked prepared.view path root lockFile after)
    (calm : Calm host prepared) : Locked host.view path root lockFile after where
  sound := h.sound
  quiet := (calm.quiet root).trans h.quiet
  reaches := h.reaches
  locks := h.locks
  fresh := calm.grown.locked ▸ h.fresh
  locked := calm.grown.locked ▸ h.locked

/-- A lock is given up, and nothing else happens. -/
theorem unlock_endured {done : Unit} (sound : host.Sound)
    (run : (Script.call (.unlock lockFile)).Endures may host done after) : after.Sound ∧
      after.view = host.view.withLocked (host.view.locked.filter (· ≠ lockFile.id)) := by
  have hfree : (Script.call (.unlock lockFile)).Ensures .frail (fun _ => True)
      (fun _ last => last.Sound ∧
        last.view = host.view.withLocked (host.view.locked.filter (· ≠ lockFile.id))) host :=
    Script.ensures_unlock sound trivial fun last hsound hview => ⟨trivial, hsound, hview⟩
  exact hfree.yields (yields_of_foreseen run (Script.only_call fun _ h => by cases h))

/-- The lock file of a directory is opened, and made if it is missing. -/
theorem ensures_openLock_any (sound : host.Sound) (home : host.view.ending path = root)
    (unlocked : Unlocked host.view root) :
    (Action.openFile (path.child lockName) .keep).Ensures .frail
      (fun after => after.Sound ∧ Quiet host.view root after.view ∧
        after.view.locked = host.view.locked)
      (fun lockFile after => (after.Sound ∧ Quiet host.view root after.view ∧
          after.view.locked = host.view.locked) ∧ after.view.Reaches path root ∧
        Locks lockFile after.view root ∧ lockFile.id ∉ host.view.locked)
      (fun _ after => after.Sound ∧ Quiet host.view root after.view ∧
        after.view.locked = host.view.locked) host := by
  refine Action.ensures_openFile_keep_any sound (show PlainName lockName by decide) home
    ⟨sound, .refl _ _, rfl⟩ (fun _ => ⟨sound, .refl _ _, rfl⟩) ?_ ?_
  · intro id bytes hreaches hfile
    exact ⟨⟨sound, .refl _ _, rfl⟩, hreaches, ⟨bytes, hfile⟩, unlocked id bytes hfile⟩
  · intro id after hreaches hnone hunused hsound hview
    have hafter : after.Sound ∧ Quiet host.view root after.view ∧
        after.view.locked = host.view.locked := by
      rw [hview]
      exact ⟨hsound, .of_put hnone _, rfl⟩
    refine ⟨hafter, hafter, ?_, ⟨[], View.file?_of_eq_put hview⟩, hunused.1⟩
    rw [hview]
    exact hreaches.put _ _

/-- A directory that nobody has locked is locked, or left without a lock. -/
theorem acquire_free {result : Except Error Handle} (sound : host.Sound)
    (home : host.view.ending path = root) (unlocked : Unlocked host.view root)
    (run : (acquire path).run.Endures may host result after) :
    (∃ lockFile, result = .ok lockFile ∧ Locked host.view path root lockFile after) ∨
      (∃ e, result = .error e) ∧ after.Sound ∧ Quiet host.view root after.view ∧
        after.view.locked = host.view.locked := by
  have hopen := ensures_openLock_any sound home unlocked
  have hsettles : (Action.openFile (path.child lockName) .keep).Settles may host :=
    (Action.brittle_openFile _ _).settles host
  rcases acquire_cases run with ⟨e, rfl, hfirst⟩ | ⟨lockFile, opened, reply, hfirst, hlock, hreply⟩
  · rcases hopen.endured hsettles hfirst with ⟨_, hok, _⟩ | ⟨_, hleft⟩
    · cases hok
    · exact Or.inr ⟨⟨e, rfl⟩, hleft⟩
  rcases hopen.endured hsettles hfirst with ⟨_, hok, hleft, hreaches, hlocks, hfresh⟩ | ⟨⟨_, he⟩, _⟩
  swap
  · cases he
  cases hok
  obtain ⟨bytes, hfile⟩ := id hlocks
  obtain ⟨hsound, hquiet, hlocked⟩ := id hleft
  rcases hlock.of_call with hanswer | ⟨_, hfault, rfl⟩
  · have htake : (Script.call (.lock lockFile)).Ensures .own (fun _ => True)
        (fun reply last => reply = .ok () ∧ last.Sound ∧
          last.view = opened.view.withLocked (lockFile.id :: opened.view.locked)) opened :=
      Script.ensures_lock hsound hfile trivial (fun htaken => absurd (hlocked ▸ htaken) hfresh)
        fun _ last hsound hview => ⟨trivial, rfl, hsound, hview⟩
    obtain ⟨rfl, hsound', hview⟩ := htake.yields (.step (Or.inl ⟨hanswer, False.elim⟩) .done)
    rcases hreply with ⟨_, rfl⟩ | ⟨⟨_, hnone⟩, _⟩
    swap
    · cases hnone
    refine Or.inl ⟨lockFile, rfl, hsound', ?_, ?_, ⟨bytes, ?_⟩, hfresh, ?_⟩
    · rw [hview]
      exact ⟨hquiet.base, hquiet.kept, hquiet.file?⟩
    · rw [hview]
      exact hreaches.mono rfl fun _ h => h
    · rw [hview]
      exact hfile
    · rw [hview, ← hlocked]
      rfl
  · rcases hreply with ⟨rfl, _⟩ | ⟨_, hfailed⟩
    · cases hfault
    · exact Or.inr ⟨hfailed, hleft⟩

/-- A directory whose lock file is locked. -/
def Latched (v : View) (root : Location) : Prop :=
  ∃ id bytes, v.file? (lockPlace root) = some (id, bytes) ∧ id ∈ v.locked

theorem unlocked_of_not_latched (h : ¬ Latched v root) : Unlocked v root :=
  fun id bytes hfile htaken => h ⟨id, bytes, hfile, htaken⟩

/-- A directory that is locked is not locked again. -/
theorem acquire_latched {result : Except Error Handle} (sound : host.Sound)
    (home : host.view.ending path = root) (latched : Latched host.view root)
    (run : (acquire path).run.Endures may host result after) :
    (∃ e, result = .error e) ∧ after = host := by
  obtain ⟨id, bytes, file, taken⟩ := latched
  have hopen : (Action.openFile (path.child lockName) .keep).Ensures .frail (· = host)
      (fun lockFile last => lockFile.id = id ∧ last = host) (fun _ last => last = host) host := by
    refine Action.ensures_openFile_keep_any sound (show PlainName lockName by decide) home rfl
      (fun _ => rfl) ?_ ?_
    · intro other bytes' _ hother
      cases file.symm.trans hother
      exact ⟨rfl, rfl⟩
    · intro _ _ _ hnone
      cases file.symm.trans hnone
  have hsettles : (Action.openFile (path.child lockName) .keep).Settles may host :=
    (Action.brittle_openFile _ _).settles host
  rcases acquire_cases run with ⟨e, rfl, hfirst⟩ | ⟨lockFile, opened, reply, hfirst, hlock, hreply⟩
  · rcases hopen.endured hsettles hfirst with ⟨_, hok, _⟩ | ⟨_, hleft⟩
    · cases hok
    · exact ⟨⟨e, rfl⟩, hleft⟩
  rcases hopen.endured hsettles hfirst with ⟨_, hok, hid, hsame⟩ | ⟨⟨_, he⟩, _⟩
  swap
  · cases he
  cases hok
  subst hid hsame
  have hrefused : (∀ done, reply ≠ .ok done) ∧ after = opened := by
    rcases hlock.of_call with hanswer | ⟨_, hfault, rfl⟩
    · have htake : (Script.call (.lock lockFile)).Ensures .own (fun _ => True)
          (fun reply last => (∀ done, reply ≠ .ok done) ∧ last = opened) opened :=
        Script.ensures_lock sound file trivial
          (fun _ => ⟨fun _ heq => (by cases heq), rfl⟩) fun hfree => absurd taken hfree
      exact htake.yields (.step (Or.inl ⟨hanswer, False.elim⟩) .done)
    · refine ⟨?_, rfl⟩
      rintro done rfl
      cases hfault
  rcases hreply with ⟨hok, _⟩ | ⟨_, hfailed⟩
  · exact absurd hok (hrefused.1 ())
  · exact ⟨hfailed, hrefused.2⟩

/-! ## Openings -/

/-- A directory that is locked is left alone. -/
theorem start_latched {result : Except Error Portable} (sound : host.Sound)
    (home : host.view.ending config.path = root) (latched : Latched host.view root)
    (run : (start config).run.Endures may host result after) :
    (∃ e, result = .error e) ∧ Calm host after := by
  -- The lock is not taken, so that the opening gets no further.
  have hheld : ∀ {prepared last : Host} {reply : Except Error Handle},
      (prepareDirectory config).run.Endures may host (.ok ()) prepared →
      (acquire config.path).run.Endures may prepared reply last →
      (∃ e, reply = .error e) ∧ Calm host last := by
    intro prepared last reply hfirst hsecond
    have hcalm := prepare_endured sound hfirst
    have hlatched : Latched prepared.view root := by
      rwa [Latched, hcalm.grown.file?, hcalm.grown.locked]
    obtain ⟨hfailed, rfl⟩ := acquire_latched hcalm.sound (hcalm.home home) hlatched hsecond
    exact ⟨hfailed, hcalm⟩
  cases start_run run with
  | unprepared hfirst => exact ⟨⟨_, rfl⟩, prepare_endured sound hfirst⟩
  | unlocked hfirst hsecond => exact ⟨⟨_, rfl⟩, (hheld hfirst hsecond).2⟩
  | unloaded hfirst hsecond _ _ | opened hfirst hsecond _ =>
    obtain ⟨⟨_, hfailed⟩, _⟩ := hheld hfirst hsecond
    cases hfailed

/-- A directory that nobody has locked is left without a lock, or its log and tables are opened
under one. Where this fails, the lock is given up. -/
theorem start_locked {result : Except Error Portable} (sound : host.Sound)
    (home : host.view.ending config.path = root) (unlocked : Unlocked host.view root)
    (run : (start config).run.Endures may host result after) :
    ((∃ e, result = .error e) ∧ after.Sound ∧ Quiet host.view root after.view ∧
        after.view.locked = host.view.locked) ∨
      ∃ lockFile locked between, Locked host.view config.path root lockFile locked ∧
        (load config lockFile).run.Endures may locked result between ∧
        ((∃ store, result = .ok store) ∧ after = between ∨ (∃ e, result = .error e) ∧
          (Script.call (.unlock lockFile)).Endures may between () after) := by
  have hacquire : ∀ {prepared last : Host} {reply : Except Error Handle},
      (prepareDirectory config).run.Endures may host (.ok ()) prepared →
      (acquire config.path).run.Endures may prepared reply last →
      (∃ lockFile, reply = .ok lockFile ∧ Locked host.view config.path root lockFile last) ∨
        (∃ e, reply = .error e) ∧ last.Sound ∧ Quiet host.view root last.view ∧
          last.view.locked = host.view.locked := by
    intro prepared last reply hfirst hsecond
    have hcalm := prepare_endured sound hfirst
    have hunlocked : Unlocked prepared.view root := by
      rwa [Unlocked, hcalm.grown.file?, hcalm.grown.locked]
    rcases acquire_free hcalm.sound (hcalm.home home) hunlocked hsecond with
      ⟨lockFile, hok, hlocked⟩ | ⟨hfailed, hsound, hquiet, hsame⟩
    · exact Or.inl ⟨lockFile, hok, hlocked.of_calm hcalm⟩
    · exact Or.inr ⟨hfailed, hsound, (hcalm.quiet root).trans hquiet,
        hsame.trans hcalm.grown.locked⟩
  cases start_run run with
  | unprepared hfirst =>
    have hcalm := prepare_endured sound hfirst
    exact Or.inl ⟨⟨_, rfl⟩, hcalm.sound, hcalm.quiet root, hcalm.grown.locked⟩
  | unlocked hfirst hsecond =>
    rcases hacquire hfirst hsecond with ⟨_, hok, _⟩ | hleft
    · cases hok
    · exact Or.inl ⟨⟨_, rfl⟩, hleft.2⟩
  | unloaded hfirst hsecond hthird hunlock =>
    rcases hacquire hfirst hsecond with ⟨_, hok, hlocked⟩ | ⟨⟨_, he⟩, _⟩
    · cases hok
      exact Or.inr ⟨_, _, _, hlocked, hthird, Or.inr ⟨⟨_, rfl⟩, hunlock⟩⟩
    · cases he
  | opened hfirst hsecond hthird =>
    rcases hacquire hfirst hsecond with ⟨_, hok, hlocked⟩ | ⟨⟨_, he⟩, _⟩
    · cases hok
      exact Or.inr ⟨_, _, _, hlocked, hthird, Or.inl ⟨⟨_, rfl⟩, rfl⟩⟩
    · cases he

/-- What the opening of a directory gives: a store with an empty memtable, and a lock that nobody
had. -/
structure Opened (config : Config) (v : View) (root : Location) (store : Portable) (host : Host) :
    Prop where
  left : Left v root (store.lockFile.id :: v.locked) host
  fresh : store.lockFile.id ∉ v.locked
  directory : store.directory = config.path
  reaches : host.view.Reaches config.path root
  locks : Locks store.lockFile host.view root
  log : ∃ bytes, host.view.file? (logPlace root) = some (store.log.handle.id, bytes)
  memtable : store.memtable = .empty
  settled : Roomy v root → Settled store.tables.tables host.view root

/-- A directory that nobody has locked is opened, or left with what can be recovered from it. -/
theorem start_free {result : Except Error Portable} (sound : host.Sound)
    (home : host.view.ending config.path = root) (unlocked : Unlocked host.view root)
    (legible : ∀ host id bytes, host.view.file? (logPlace root) = some (id, bytes) →
      Legible may host id)
    (run : (start config).run.Endures may host result after) :
    (∃ store, result = .ok store ∧ Opened config host.view root store after) ∨
      (∃ e, result = .error e) ∧ Left host.view root host.view.locked after := by
  rcases start_locked sound home unlocked run with
    ⟨hfailed, hsound, hquiet, hsame⟩ | ⟨lockFile, locked, between, hlocked, hload, hend⟩
  · have hleft := Left.of_quiet hsound hquiet
    rw [hsame] at hleft
    exact Or.inr ⟨hfailed, hleft⟩
  -- Up to here only directories and the lock file may be new.
  obtain ⟨hleft, hloaded⟩ := load_endured hlocked.sound hlocked.reaches legible hload
  have hall := (Left.of_quiet hlocked.sound hlocked.quiet).trans hleft hlocked.quiet.roomy
  rw [hlocked.locked] at hall
  rcases hend with ⟨⟨store, rfl⟩, rfl⟩ | ⟨hfailed, hunlock⟩
  · obtain ⟨hdirectory, rfl, hmemtable, hlog, hsettled⟩ := hloaded store rfl
    obtain ⟨bytes, hfile⟩ := hlocked.locks
    refine Or.inl ⟨store, rfl, hall, hlocked.fresh, hdirectory,
      hleft.spares.reaches hlocked.reaches, ⟨bytes, ?_⟩, hlog, hmemtable,
      fun roomy => hsettled (hlocked.quiet.roomy roomy)⟩
    refine hleft.spares.foreign root lockName _ nameKind_lockName ?_ hfile
    simp [logPlace, lockName, logName]
  · -- The lock is given up, and with it goes nothing else.
    obtain ⟨hsound, hview⟩ := unlock_endured hall.sound hunlock
    refine Or.inr ⟨hfailed, hsound, ?_, ?_, ?_⟩
    · have hfilter : (lockFile.id :: host.view.locked).filter (· ≠ lockFile.id) =
          host.view.locked := by
        rw [List.filter_cons_of_neg (by simp), List.filter_eq_self]
        intro id hmem
        simp only [decide_eq_true_eq]
        rintro rfl
        exact hlocked.fresh hmem
      rw [hview, ← hfilter, ← hall.locked]
      rfl
    · rw [hview]
      exact ⟨hall.spares.base, hall.spares.kept, hall.spares.foreign⟩
    · intro roomy
      rw [hview]
      exact (hall.content roomy).trans (.of_files (fun _ _ => rfl) fun _ _ _ _ => rfl)

end OrderedStore.Portable
