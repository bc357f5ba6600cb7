import OrderedStore.Proofs.Log.Hindrance
import OrderedStore.Proofs.Portable.Hindered

/-!
# Hindered openings

When a store is opened, what its log holds is written out. This may be hindered as any other
write-out; then the opening fails, and the directory holds the history from before.

Main statement: `Portable.start_endured`.
-/

namespace OrderedStore.Portable

open Log (Operation Legible)

variable {host after : Host} {config : Config} {path : Path} {root : Location} {used : Nat}
  {ops : List Operation} {lockFile : Handle}

/-- A handle is on the log of a directory. -/
def LogFile (host : Host) (root : Location) (handle : Handle) : Prop :=
  ∃ bytes, host.view.file? (logPlace root) = some (handle.id, bytes)

/-- The calls that may be refused while the store of a directory is opened. -/
def Opposed (root : Location) (host : Host) : Call → Prop :=
  MayRefuse (LogFile host root)

theorem legible (host : Host) (id : Nat) (bytes : Bytes)
    (file : host.view.file? (logPlace root) = some (id, bytes)) :
    Legible (Opposed root) host id := by
  intro call reads hmay
  cases call with
  | read handle offset count =>
    obtain rfl : handle = ⟨id⟩ := reads
    exact hmay ⟨bytes, file⟩
  | size handle => exact hmay
  | _ => exact reads

/-! ## Calls before the directory is locked -/

variable {may : Host → Call → Prop}

/-- A call that is refused, if it can be refused, as the conduct `Conduct.frail` refuses it. -/
def Foreseen (call : Call) : Prop :=
  ∀ reply, (call.fault? reply).isSome → call.Fallible

theorem foreseen_probe (path : Path) : Foreseen (.probe path) :=
  fun _ h => by cases h

theorem yields_of_foreseen {α : Type} {script : Script α} {value : α}
    (run : script.Endures may host value after) (only : script.Only Foreseen) :
    script.Yields .frail host value after :=
  run.yields_of_foreseen id (only.mono fun _ h _ reply _ => h reply)

theorem only_prepareDirectory (config : Config) : (prepareDirectory config).Only Foreseen := by
  have hprobe : ∀ path, (Action.probe path).Only Foreseen :=
    fun path => Action.only_ofScript (Script.only_call (foreseen_probe path))
  have hmarker : (do
      if (← Action.probe (config.path.child nativeMarker)).isSome then
        throw (.storage (.nativeData config.path.text)) : Action Unit).Only Foreseen := by
    refine (hprobe _).bind fun found => ?_
    split
    · exact Action.only_throw _
    · exact Action.only_pure _
  unfold prepareDirectory
  refine (hprobe _).bind fun found => ?_
  split
  · split
    · exact (Action.only_attempt (Script.only_call fun _ _ => trivial)).bind fun _ => hmarker
    · exact Action.only_throw _
  · exact Action.only_throw _
  · exact hmarker

/-- The lock file is opened, and locked then. -/
theorem acquire_cases {result : Except Error Handle}
    (run : (acquire path).run.Endures may host result after) :
    (∃ e, result = .error e ∧
        (Action.openFile (path.child lockName) .keep).run.Endures may host (.error e) after) ∨
      ∃ lockFile opened reply,
        (Action.openFile (path.child lockName) .keep).run.Endures may host (.ok lockFile) opened ∧
        (Script.call (.lock lockFile)).Endures may opened reply after ∧
        (reply = .ok () ∧ result = .ok lockFile ∨
          (∃ fault, reply = .error fault) ∧ ∃ e, result = .error e) := by
  unfold acquire at run
  rcases Action.endures_bind run with hfailed | ⟨lockFile, opened, hfirst, hrest⟩
  · exact Or.inl hfailed
  obtain ⟨reply, locked, hlock, hdone⟩ := Script.Endures.of_bind hrest
  have hlast : after = locked ∧ (reply = .ok () ∧ result = .ok lockFile ∨
      (∃ fault, reply = .error fault) ∧ ∃ e, result = .error e) := by
    split at hdone
    · cases hdone
      exact ⟨rfl, Or.inl ⟨rfl, rfl⟩⟩
    · cases hdone
      exact ⟨rfl, Or.inr ⟨⟨_, rfl⟩, _, rfl⟩⟩
    · cases hdone
      exact ⟨rfl, Or.inr ⟨⟨_, rfl⟩, _, rfl⟩⟩
  obtain ⟨rfl, hreply⟩ := hlast
  exact Or.inr ⟨lockFile, opened, reply, hfirst, hlock, hreply⟩

/-- The lock of a directory is taken, or the directory stays unlocked. -/
theorem acquire_endured {result : Except Error Handle}
    (rests : Rests .frail path root used ops host) (unlocked : Unlocked host.view root)
    (run : (acquire path).run.Endures may host result after) :
    (∃ lockFile, result = .ok lockFile ∧ Rests .frail path root used ops after ∧
        Locks lockFile after.view root ∧ after.view.Reaches path root) ∨
      (∃ e, result = .error e) ∧ Rests .frail path root used ops after ∧
        Unlocked after.view root := by
  have hopen := @ensures_openLock .frail _ _ _ _ _ rests unlocked
  have honly : (Action.openFile (path.child lockName) .keep).Only Foreseen :=
    Action.only_attempt (Script.only_call fun _ _ => trivial)
  rcases acquire_cases run with ⟨e, rfl, hfirst⟩ | ⟨lockFile, opened, reply, hfirst, hlock, hreply⟩
  · obtain ⟨_, hrests, hunlocked⟩ := hopen.yields (yields_of_foreseen hfirst honly)
    exact Or.inr ⟨⟨e, rfl⟩, hrests, hunlocked⟩
  obtain ⟨hrests, hunlocked, hlocks, hreaches⟩ :=
    hopen.yields (yields_of_foreseen hfirst honly)
  obtain ⟨bytes, hfile⟩ := id hlocks
  rcases hlock.of_call with hanswer | ⟨_, hfault, rfl⟩
  · -- Nobody holds the lock, so the call gives it.
    have htake : (Script.call (.lock lockFile)).Ensures .frail (fun _ => True)
        (fun reply last => reply = .ok () ∧ Rests .frail path root used ops last ∧
          Locks lockFile last.view root ∧ last.view.Reaches path root) opened := by
      refine Script.ensures_lock hrests.sound hfile trivial
        (fun htaken => absurd htaken (hunlocked _ bytes hfile)) fun _ last hsound hview => ?_
      refine ⟨trivial, rfl, hrests.relock hsound hview, ⟨bytes, ?_⟩, ?_⟩
      · rw [hview]
        exact hfile
      · rw [hview]
        exact hreaches.mono rfl fun _ hdir => hdir
    obtain ⟨rfl, hlast⟩ := htake.yields (.step (Or.inl ⟨hanswer, False.elim⟩) .done)
    rcases hreply with ⟨_, rfl⟩ | ⟨⟨_, hnone⟩, _⟩
    · exact Or.inl ⟨lockFile, rfl, hlast⟩
    · cases hnone
  · rcases hreply with ⟨rfl, _⟩ | ⟨_, hfailed⟩
    · cases hfault
    · exact Or.inr ⟨hfailed, hrests, hunlocked⟩

/-! ## Log and tables -/

theorem brittle_tell (reporting : Bool) (message : String) :
    (Action.ofScript (tell reporting message)).Brittle := by
  refine Action.brittle_of_only (Action.only_ofScript ?_)
  unfold tell
  split
  · exact Script.only_call (Or.inr fun _ => rfl)
  · trivial

theorem brittle_truncate (log : Log.Appender) :
    log.truncate.Brittle fun result => Action.Failed result.1 := by
  have hemptied : (do
      Action.resize log.handle 0
      Action.sync log.handle : Action Unit).Brittle :=
    (Action.brittle_resize log.handle 0).bind fun _ => Action.brittle_sync log.handle
  refine Script.Brittle.bind hemptied ?_ ?_
  · rintro _ ⟨e, rfl⟩
    exact ⟨_, rfl, e, rfl⟩
  · rintro (e | done)
    · trivial
    · trivial

theorem brittle_writeOutReplayed (log : Log.Appender) (tables : TableStack) (memtable : Memtable)
    (reporting : Bool) : (writeOutReplayed log tables memtable reporting).Brittle := by
  unfold writeOutReplayed
  split
  · exact Action.brittle_pure _
  refine (brittle_tell _ _).bind fun _ => ?_
  refine Action.brittle_ofScript_bind (TableStack.brittle_flush tables memtable) ?_ ?_
  · rintro ⟨_, stack⟩ ⟨e, rfl⟩
    exact ⟨e, rfl⟩
  rintro ⟨e | summary, stack⟩
  · exact Action.brittle_throw e
  refine Action.brittle_ofScript_bind (brittle_truncate log) ?_ ?_
  · rintro ⟨_, log⟩ ⟨e, rfl⟩
    exact ⟨e, rfl⟩
  rintro ⟨e | done, log⟩
  · exact Action.brittle_throw e
  · exact Action.brittle_pure _

theorem replay_settles {reporting : Bool} (names : host.view.Names path (logPlace root))
    (clear : host.view.directory (logPlace root) = false)
    (legible : ∀ host id bytes, host.view.file? (logPlace root) = some (id, bytes) →
      Legible may host id) :
    (replay path reporting).Settles may host := by
  unfold replay
  refine ((Action.brittle_probe path).settles host).bind fun found between hprobe => ?_
  obtain ⟨hfound, rfl⟩ := Action.found_of_yields hprobe
  split
  · exact (Action.brittle_pure _).settles _
  rename_i hsome
  have hsome : found.isSome = true := by simpa [Option.isSome_iff_ne_none] using hsome
  -- The log is there, and no read of it may be refused.
  obtain ⟨id, bytes, hfile⟩ := Action.file?_of_found names clear (hfound ▸ hsome)
  refine (Log.Recovery.recover_settles names hfile (legible _ _ _ hfile)).bind
    fun found last _ => ?_
  refine Action.Brittle.settles ?_ last
  obtain ⟨records, recovery⟩ := found
  simp only
  split
  · exact (brittle_tell _ _).bind fun _ => Action.brittle_pure _
  · exact Action.brittle_pure _

theorem load_settles (rests : Rests .frail config.path root used ops host)
    (reaches : host.view.Reaches config.path root)
    (legible : ∀ host id bytes, host.view.file? (logPlace root) = some (id, bytes) →
      Legible may host id) :
    (load config lockFile).Settles may host := by
  obtain ⟨logged, tabled, volumes, holding, _⟩ := rests.parts
  unfold load
  refine ((TableStack.brittle_start _ _).settles host).bind fun tables opened hstart => ?_
  have hstack := @TableStack.ensures_start .frail _ _ _ _ _ config.blockSize rests.sound reaches
    (show PlainName tablesName by decide) (by decide) rests.tidy.tables holding.shelves
  obtain ⟨kept, _⟩ := hstack.yields hstart
  have hnames : opened.view.Names (config.path.child logName) (logPlace root) :=
    (kept.same.reaches reaches).names (show PlainName logName by decide)
  have hclear := (rests.tidy.sameOutside kept.same).log
  refine (replay_settles hnames hclear legible).bind fun memtable replayed hreplay => ?_
  -- Replaying may cut the log, but leaves it a file.
  have hrecovered := @ensures_replay .frail _ _ _ config.logSink kept.sound hnames hclear
  obtain ⟨shows, _⟩ := hrecovered.yields hreplay
  have hclear' : replayed.view.directory (logPlace root) = false := by
    rw [shows.same.directory, hclear]
  refine (Log.Appender.start_settles (shows.same.names hnames) hclear' (legible _)).bind
    fun log started _ => ?_
  refine Action.Brittle.settles ?_ started
  refine (brittle_writeOutReplayed _ _ _ _).bind fun _ => ?_
  exact (brittle_tell _ _).bind fun _ => Action.brittle_pure _

/-- An opening may be hindered anywhere but in reading the log: it opens the store on the history
that the directory holds, or leaves it to the next one. -/
theorem start_endured {result : Except Error Portable}
    (rests : Rests .frail config.path root used ops host) (unlocked : Unlocked host.view root)
    (small : used + 2 < UInt64.size)
    (legible : ∀ host id bytes, host.view.file? (logPlace root) = some (id, bytes) →
      Legible may host id)
    (run : (start config).run.Endures may host result after) :
    (∃ store, result = .ok store ∧ Begun .frail config.path root (used + 1) ops store after) ∨
      (∃ e, result = .error e) ∧ Rests .frail config.path root (used + 1) ops after ∧
        Unlocked after.view root := by
  have hprepare := ensures_prepareDirectory rests unlocked
  -- The lock is taken in a directory that was looked at.
  have hacquire : ∀ {prepared last : Host} {reply : Except Error Handle},
      (prepareDirectory config).run.Endures may host (.ok ()) prepared →
      (acquire config.path).run.Endures may prepared reply last →
      (∃ lockFile, reply = .ok lockFile ∧ Rests .frail config.path root used ops last ∧
          Locks lockFile last.view root ∧ last.view.Reaches config.path root) ∨
        (∃ e, reply = .error e) ∧ Rests .frail config.path root used ops last ∧
          Unlocked last.view root := by
    intro prepared last reply hfirst hsecond
    obtain ⟨hrests, hunlocked, _⟩ := hprepare.yields
      (yields_of_foreseen hfirst (only_prepareDirectory config))
    exact acquire_endured hrests hunlocked hsecond
  cases start_run run with
  | unprepared hfirst =>
    obtain ⟨_, hrests, hunlocked⟩ := hprepare.yields
      (yields_of_foreseen hfirst (only_prepareDirectory config))
    exact Or.inr ⟨⟨_, rfl⟩, hrests.mono (Nat.le_succ _), hunlocked⟩
  | unlocked hfirst hsecond =>
    rcases hacquire hfirst hsecond with ⟨_, hok, _⟩ | ⟨_, hafter, hfree⟩
    · cases hok
    · exact Or.inr ⟨⟨_, rfl⟩, hafter.mono (Nat.le_succ _), hfree⟩
  | @unloaded e lockFile prepared locked between _ hfirst hsecond hthird hunlock =>
    rcases hacquire hfirst hsecond with ⟨_, hok, hlocked, hlocks, hreaches⟩ | ⟨⟨_, he⟩, _⟩
    swap
    · cases he
    cases hok
    have hload := ensures_load hlocked hlocks hreaches small
    -- The lock is given up whether the log and the tables could be left alone or not.
    have hheld : Held .frail config.path root (used + 1) ops lockFile between := by
      rcases load_settles hlocked hreaches legible _ between hthird with hyields | ⟨_, hstops⟩
      · exact (hload.yields hyields).2
      · exact hload.stops hstops
    have hfree : (Script.call (.unlock lockFile)).Ensures .frail
        (Rests .frail config.path root (used + 1) ops)
        (fun _ last => Rests .frail config.path root (used + 1) ops last ∧
          Unlocked last.view root) between :=
      hheld.toRests.ensures_unlock hheld.locks fun _ hlast hunlocked _ => ⟨hlast, hunlocked⟩
    exact Or.inr ⟨⟨e, rfl⟩,
      hfree.yields (yields_of_foreseen hunlock (Script.only_call fun _ h => by cases h))⟩
  | @opened store lockFile prepared locked _ hfirst hsecond hthird =>
    rcases hacquire hfirst hsecond with ⟨_, hok, hlocked, hlocks, hreaches⟩ | ⟨⟨_, he⟩, _⟩
    swap
    · cases he
    cases hok
    have hload := ensures_load hlocked hlocks hreaches small
    rcases load_settles hlocked hreaches legible _ after hthird with hyields | ⟨⟨e, he⟩, _⟩
    · exact Or.inl ⟨store, rfl, hload.yields hyields⟩
    · cases he

end OrderedStore.Portable
