import OrderedStore.Log.Appender
import OrderedStore.Proofs.Log.Reading

/-!
# Writing a log file

Wherever the process dies while a log is written, the file shows the operations from before or those
and the new one. An appender knows the file that it writes: whole frames up to the size that it
counts (`Appender.Holds`).
-/

namespace OrderedStore.Log

variable {conduct : Conduct} {host after : Host} {target : Location} {path : Path} {v : View}
  {bytes : Bytes} {id : Nat}

/-- The operations that the bytes of a log say. -/
def operations (bytes : Bytes) : List Operation :=
  (records bytes).map (·.operation)

@[simp]
theorem operations_nil : operations [] = [] := by
  simp [operations]

theorem operations_of_records {bytes' : Bytes} {record : Record}
    (h : records bytes' = records bytes ++ [record]) :
    operations bytes' = operations bytes ++ [record.operation] := by
  rw [operations, h, List.map_append]
  rfl

/-- The frame as which a record is logged. -/
def Record.frame (record : Record) : Bytes :=
  Frame.ofPayload record.lsn (Payload.encode record)

/-- Behind whole frames the frame of a record adds this record. -/
theorem records_frame (record : Record) (clean : leftover bytes = [])
    (fits : Payload.length record.operation ≤ Frame.payloadLimit) :
    records (bytes ++ record.frame) = records bytes ++ [record] :=
  (records_append clean (Frame.split?_ofPayload fits)).1

/-- Whole frames that say nothing are none. -/
theorem eq_nil_of_operations (clean : leftover bytes = []) (h : operations bytes = []) :
    bytes = [] := by
  cases hsplit : Frame.split? bytes with
  | none => rw [← (parse_of_none hsplit).2, clean]
  | some pair =>
    rw [operations, (parse_of_some hsplit).1] at h
    cases h

/-- A sound host on which the log at a place shows some operations, and all else is as in a view. -/
structure Shows (v : View) (target : Location) (ops : List Operation) (host : Host) : Prop where
  sound : host.Sound
  same : v.SameBut host.view target
  shown : operations (host.view.bytesAt target) = ops

theorem Shows.of_put (sound : after.Sound) (same : v.SameBut host.view target)
    (hview : after.view = host.view.put target (some (id, bytes))) :
    Shows v target (operations bytes) after where
  sound := sound
  same := same.trans (.of_eq_put hview)
  shown := by rw [View.bytesAt_of_file? (View.file?_of_eq_put hview)]

theorem Shows.of_force (sound : after.Sound) (same : v.SameBut host.view target) {size : Nat}
    (hview : after.view = (host.view.put target (some (id, bytes))).force id size) :
    Shows v target (operations bytes) after where
  sound := sound
  same := same.trans (sound.sameBut hview)
  shown := by
    have hfile : after.view.file? target = some (id, bytes) := by
      rw [hview]
      exact View.put_file?_self ..
    rw [View.bytesAt_of_file? hfile]

/-! ## Recovery -/

theorem ensures_start {stop : Host → Prop} (names : host.view.Names path target)
    (file : host.view.file? target = some (id, bytes)) (same : stop host) :
    (Stream.start path).Ensures conduct stop
      (fun stream after => stream = { handle := ⟨id⟩ } ∧ after = host)
      (fun _ after => conduct.Excuse ∧ after = host) host := by
  refine Action.Ensures.bind (Action.ensures_openFile_present (Or.inl rfl) names file same ?_ ?_)
  · intro excuse _ e
    exact ⟨excuse, rfl⟩
  · intro _
    exact ⟨rfl, rfl⟩

/-- What a reading of a whole log reports that leaves the file as it is. -/
def Recovery.report (bytes : Bytes) : Recovery where
  recovered := (records bytes).length
  corrupted := if leftover bytes = [] then 0 else 1
  lastLsn := ((records bytes).getLast?.map (·.lsn)).getD 0

/-- However its file is opened, a log is read up to the first place that does not read as a
frame. -/
theorem Recovery.ensures_scan_started {stop : Host → Prop} {err : Error → Host → Prop}
    (sound : host.Sound) (file : host.view.file? target = some (id, bytes)) (same : stop host)
    (started : (Stream.start path).Ensures conduct stop
      (fun stream after => stream = { handle := ⟨id⟩ } ∧ after = host) err host) :
    (Recovery.scan path).Ensures conduct stop
      (fun found after => after = host ∧ found.1 = records bytes ∧
        found.2.1 = Recovery.report bytes ∧
        found.2.2 + (leftover bytes).length = bytes.length) err host := by
  refine Action.Ensures.bind_of started ?_ fun _ _ h => h
  rintro stream _ ⟨rfl, rfl⟩
  refine Action.Ensures.bind (Action.ensures_ofScript
    (Stream.ensures_drain sound file same ?_))
  intro failure stream hfailure hposition
  refine ⟨rfl, rfl, ?_, hposition⟩
  by_cases hclean : leftover bytes = []
  · have hnone : failure = none := by
      rw [← Option.not_isSome_iff_eq_none]
      exact fun hsome => hfailure.1 hsome hclean
    simp [report, hclean, hnone]
  · simp [report, hclean, hfailure.2 hclean]

theorem Recovery.ensures_scan {stop : Host → Prop} (sound : host.Sound)
    (names : host.view.Names path target) (file : host.view.file? target = some (id, bytes))
    (same : stop host) :
    (Recovery.scan path).Ensures conduct stop
      (fun found after => after = host ∧ found.1 = records bytes ∧
        found.2.1 = Recovery.report bytes ∧
        found.2.2 + (leftover bytes).length = bytes.length)
      (fun _ after => conduct.Excuse ∧ after = host) host :=
  ensures_scan_started sound file same (ensures_start names file same)

/-- An open file is cut to a size and forced to disk. -/
theorem Recovery.ensures_cut {α : Type} {value : α} {stop : Host → Prop} {ok : α → Host → Prop}
    {err : Error → Host → Prop} {handle : Handle} {size : Nat} (sound : host.Sound)
    (file : host.view.file? target = some (handle.id, bytes)) (inside : size ≤ bytes.length)
    (same : stop host) (failed : ¬ conduct.Steady → ∀ e, err e host)
    (done : ∀ after : Host, after.Sound → host.view.SameBut after.view target →
      after.view.file? target = some (handle.id, bytes.take size) → stop after ∧ ok value after) :
    (do
      Action.resize handle size
      Action.sync handle
      return value : Action α).Ensures conduct stop ok err host := by
  refine Action.Ensures.bind (Action.ensures_resize file sound inside same failed ?_)
  intro resized hsound hview
  have hsame := hsound.sameBut hview
  have hfile : resized.view.file? target = some (handle.id, bytes.take size) := by
    rw [hview]
    exact View.put_file?_self ..
  have hresized := (done resized hsound hsame hfile).1
  refine ⟨hresized, Action.Ensures.bind (Action.ensures_sync hfile hsound hresized ?_)⟩
  intro synced hsound' hview'
  rw [← View.put_eq_self _ _ _ hfile] at hview'
  have hfile' : synced.view.file? target = some (handle.id, bytes.take size) := by
    rw [hview']
    exact View.put_file?_self ..
  exact done synced hsound' (hsame.trans (hsound'.sameBut hview')) hfile'

/-- Recovery gives the records of a log and leaves whole frames. -/
theorem Recovery.ensures_recover (sound : host.Sound) (names : host.view.Names path target)
    (file : host.view.file? target = some (id, bytes)) :
    (Recovery.recover path).Ensures conduct (Shows host.view target (operations bytes))
      (fun found after => found.1 = records bytes ∧
        Shows host.view target (operations bytes) after ∧
        leftover (after.view.bytesAt target) = [] ∧ (after.view.file? target).isSome)
      (fun _ after => conduct.Excuse ∧ Shows host.view target (operations bytes) after) host := by
  have hshows : Shows host.view target (operations bytes) host :=
    ⟨sound, .refl _ _, by rw [View.bytesAt_of_file? file]⟩
  refine Action.Ensures.bind_of (ensures_scan sound names file hshows) ?_ ?_
  · rintro ⟨found, recovery, length⟩ scanned ⟨rfl, hfound, hreport, hlength⟩
    simp only at hfound hreport hlength
    subst hfound hreport
    by_cases hclean : leftover bytes = []
    · simp only [report, hclean, if_true]
      refine Action.ensures_pure ⟨rfl, hshows, ?_, by simp [file]⟩
      rw [View.bytesAt_of_file? file, hclean]
    · simp only [report, hclean, if_false]
      -- What is cut off lies behind the last whole frame, so no record goes with it.
      have hcut := parse_intact bytes
      have hsize : bytes.length - (leftover bytes).length = length := by omega
      rw [intact, hsize] at hcut
      have hops : operations (bytes.take length) = operations bytes := by
        rw [operations, hcut.1, operations]
      refine Action.Ensures.bind (Action.ensures_openFile_present (Or.inr rfl) names file hshows
        (fun excuse _ _ => ⟨excuse, hshows⟩) fun _ => ?_)
      refine ensures_cut sound file (by omega) hshows
        (fun unsteady _ => ⟨Conduct.excuse_of_not_steady unsteady, hshows⟩) ?_
      intro after hsound hsame hfile
      have hafter : Shows scanned.view target (operations bytes) after :=
        ⟨hsound, hsame, by rw [View.bytesAt_of_file? hfile, hops]⟩
      refine ⟨hafter, rfl, hafter, ?_, by simp [hfile]⟩
      rw [View.bytesAt_of_file? hfile, hcut.2]
  · rintro e after ⟨excuse, rfl⟩
    exact ⟨excuse, hshows⟩

/-! ## Appending -/

namespace Appender

variable {log : Appender}

/-- An appender on the file at a place, which holds whole frames and nothing else. All else is as
in a view. -/
structure Holds (log : Appender) (v : View) (target : Location) (bytes : Bytes) (host : Host) :
    Prop where
  sound : host.Sound
  same : v.SameBut host.view target
  file : host.view.file? target = some (log.handle.id, bytes)
  clean : leftover bytes = []
  committed : log.committed = bytes.length

theorem Holds.shows (holds : log.Holds v target bytes host) :
    Shows v target (operations bytes) host :=
  ⟨holds.sound, holds.same, by rw [View.bytesAt_of_file? holds.file]⟩

theorem Holds.here (holds : log.Holds v target bytes host) : log.Holds host.view target bytes host :=
  ⟨holds.sound, .refl _ _, holds.file, holds.clean, holds.committed⟩

theorem Holds.since {u : View} (holds : log.Holds v target bytes host) (same : u.SameBut v target) :
    log.Holds u target bytes host :=
  ⟨holds.sound, same.trans holds.same, holds.file, holds.clean, holds.committed⟩

theorem Holds.sameView (holds : log.Holds v target bytes host) (sound : after.Sound)
    (hview : after.view = host.view) : log.Holds v target bytes after :=
  ⟨sound, hview ▸ holds.same, hview ▸ holds.file, holds.clean, holds.committed⟩

/-- The appender holds what a change of its file leaves. -/
theorem Holds.of_force {log' : Appender} {bytes' : Bytes} {size : Nat}
    (holds : log.Holds v target bytes host) (handle : log'.handle = log.handle)
    (sound : after.Sound) (hview : after.view =
      (host.view.put target (some (log.handle.id, bytes'))).force log.handle.id size)
    (clean : leftover bytes' = []) (committed : log'.committed = bytes'.length) :
    log'.Holds v target bytes' after where
  sound := sound
  same := holds.same.trans (sound.sameBut hview)
  file := by
    rw [hview, handle]
    exact View.put_file?_self ..
  clean := clean
  committed := committed

/-- Another appender on the same file, whose next record gets a certain number. -/
structure Follows (log log' : Appender) (next : UInt64) : Prop where
  handle : log'.handle = log.handle
  nextLsn : log'.nextLsn = next

theorem ensures_lastLsn {stop : Host → Prop} (sound : host.Sound)
    (names : host.view.Names path target) (file : host.view.file? target = some (id, bytes))
    (same : stop host) :
    (lastLsn path).Ensures conduct stop (fun _ after => after = host)
      (fun _ after => conduct.Excuse ∧ after = host) host := by
  refine Action.Ensures.bind_of (ensures_start names file same) ?_ fun _ _ h => h
  rintro stream _ ⟨rfl, rfl⟩
  refine Action.Ensures.bind (Action.ensures_ofScript (Stream.ensures_drain sound file same ?_))
  intro failure stream _ _
  exact rfl

/-- The last steps of starting an appender: its file is opened at the end, and its size read. -/
def openEnd (path : Path) (policy : SyncPolicy) (last : UInt64) : Action Appender := do
  let handle ← Action.openFile path .keep
  let committed ← Action.size handle
  return { path, handle, nextLsn := last + 1, policy, unsynced := 0, committed }

theorem start_eq (path : Path) (policy : SyncPolicy) :
    Appender.start path policy = (do
      let last ← if (← Action.probe path).isSome then lastLsn path else pure 0
      openEnd path policy last) :=
  rfl

theorem ensures_openEnd {policy : SyncPolicy} (sound : host.Sound)
    (names : host.view.Names path target) (clear : host.view.directory target = false)
    (clean : ¬ path.Overlong → leftover (host.view.bytesAt target) = []) (last : UInt64) :
    (openEnd path policy last).Ensures conduct
      (Shows host.view target (operations (host.view.bytesAt target)))
      (fun log after => ¬ path.Overlong ∧
        log.Holds host.view target (host.view.bytesAt target) after)
      (fun _ after => conduct.Excuse ∧
        Shows host.view target (operations (host.view.bytesAt target)) after) host := by
  have hshows : Shows host.view target (operations (host.view.bytesAt target)) host :=
    ⟨sound, .refl _ _, rfl⟩
  refine Action.Ensures.bind (Action.ensures_openFile_keep sound names clear hshows
    (fun excuse _ => ⟨excuse, hshows⟩) ?_ ?_)
  · intro id bytes hshort hfile
    have hbytes := View.bytesAt_of_file? hfile
    have hfile' : host.view.file? target = some (id, host.view.bytesAt target) := by
      rw [hfile, hbytes]
    refine Action.Ensures.bind (Action.ensures_size hfile' hshows ?_)
    exact ⟨hshort, sound, .refl _ _, hfile', clean hshort, rfl⟩
  · intro id after hshort hnone _ hsound hview
    -- The file is new, and holds the bytes that a missing file has: none.
    have hbytes : host.view.bytesAt target = [] := by
      simp [View.bytesAt, hnone]
    have hfile : after.view.file? target = some (id, host.view.bytesAt target) := by
      rw [hbytes]
      exact View.file?_of_eq_put hview
    have hafter : Shows host.view target (operations (host.view.bytesAt target)) after :=
      ⟨hsound, .of_eq_put hview, by rw [View.bytesAt_of_file? hfile]⟩
    refine ⟨hafter, Action.Ensures.bind (Action.ensures_size hfile hafter ?_)⟩
    exact ⟨hshort, hsound, .of_eq_put hview, hfile, clean hshort, rfl⟩

/-- An appender starts behind the last whole frame of its file, which is made if it is missing. -/
theorem ensures_start {policy : SyncPolicy} (sound : host.Sound)
    (names : host.view.Names path target) (clear : host.view.directory target = false)
    (clean : ¬ path.Overlong → leftover (host.view.bytesAt target) = []) :
    (Appender.start path policy).Ensures conduct
      (Shows host.view target (operations (host.view.bytesAt target)))
      (fun log after => ¬ path.Overlong ∧
        log.Holds host.view target (host.view.bytesAt target) after)
      (fun _ after => conduct.Excuse ∧
        Shows host.view target (operations (host.view.bytesAt target)) after) host := by
  have hshows : Shows host.view target (operations (host.view.bytesAt target)) host :=
    ⟨sound, .refl _ _, rfl⟩
  -- Looking for the last number leaves the file as it is.
  rw [start_eq]
  refine Action.Ensures.bind (Action.ensures_probe_entry names hshows ?_ ?_)
  · intro _
    exact Action.Ensures.bind (Action.ensures_pure (ensures_openEnd sound names clear clean 0))
  · intro _
    cases hfile : host.view.file? target with
    | none =>
      simp only [View.kind?, hfile, clear]
      exact Action.Ensures.bind (Action.ensures_pure (ensures_openEnd sound names clear clean 0))
    | some file =>
      obtain ⟨id, bytes⟩ := file
      simp only [View.kind?, hfile]
      refine Action.Ensures.bind_of (ensures_lastLsn sound names hfile hshows) ?_ ?_
      · rintro last _ rfl
        exact ensures_openEnd sound names clear clean last
      · rintro e _ ⟨excuse, rfl⟩
        exact ⟨excuse, hshows⟩

theorem ensures_sync (holds : log.Holds v target bytes host) :
    log.sync.Ensures conduct (Shows v target (operations bytes))
      (fun result after => ∃ log', result = (.ok (), log') ∧ log.Follows log' log.nextLsn ∧
        log'.Holds v target bytes after)
      host := by
  refine Action.Ensures.script_bind (Action.ensures_sync holds.file holds.sound holds.shows ?_)
  intro after hsound hview
  rw [← View.put_eq_self _ _ _ holds.file] at hview
  refine ⟨.of_force hsound holds.same hview, _, rfl, ⟨rfl, rfl⟩, ?_⟩
  exact holds.of_force rfl hsound hview holds.clean holds.committed

/-- A log is emptied, or stays as it is. -/
theorem ensures_truncate (holds : log.Holds v target bytes host) :
    log.truncate.Ensures conduct
      (fun after => Shows v target (operations bytes) after ∨ Shows v target [] after)
      (fun result after =>
        (∃ log', result = (.ok (), log') ∧ log.Follows log' log.nextLsn ∧
          log'.Holds v target [] after) ∨
        ¬ conduct.Steady ∧ ∃ e, result = (.error e, log) ∧ log.Holds v target bytes after)
      host := by
  unfold truncate
  refine Action.Ensures.script_bind (Action.Ensures.bind (Action.ensures_resize holds.file
    holds.sound (Nat.zero_le _) (Or.inl holds.shows) ?_ ?_))
  · intro unsteady e
    exact Or.inr ⟨unsteady, e, rfl, holds⟩
  · intro resized hsound hview
    rw [List.take_zero] at hview
    have hshows := Shows.of_force hsound holds.same hview
    rw [operations_nil] at hshows
    -- From here on the file is empty, whether it is forced to disk yet or not.
    have hemptied : Holds { log with committed := 0 } v target [] resized :=
      holds.of_force rfl hsound hview leftover_nil rfl
    refine ⟨Or.inr hshows, Action.ensures_sync hemptied.file hsound (Or.inr hshows) ?_⟩
    intro synced hsound' hview'
    rw [← View.put_eq_self _ _ _ hemptied.file] at hview'
    have hshows' := Shows.of_force hsound' hemptied.same hview'
    rw [operations_nil] at hshows'
    refine ⟨Or.inr hshows', Or.inl ⟨_, rfl, ⟨rfl, rfl⟩, ?_⟩⟩
    exact hemptied.of_force rfl hsound' hview' leftover_nil rfl

/-- A frame that could not be written is cut off again. -/
theorem ensures_rollback (holds : log.Holds v target bytes host) :
    log.rollback.Ensures conduct (Shows v target (operations bytes))
      (fun _ after => log.Holds v target bytes after)
      (fun _ after => log.Holds v target bytes after) host := by
  unfold rollback
  refine Action.ensures_resize holds.file holds.sound (Nat.le_of_eq holds.committed) holds.shows
    (fun _ _ => holds) ?_
  intro after hsound hview
  have htake : bytes.take log.committed = bytes := by
    rw [holds.committed, List.take_length]
  rw [htake] at hview
  exact ⟨.of_force hsound holds.same hview,
    holds.of_force rfl hsound hview holds.clean holds.committed⟩

variable {frame : Bytes} {record : Record} {operation : Operation}

/-- Part of a frame changes nothing, the whole frame adds its record. -/
theorem Holds.torn (holds : log.Holds v target bytes host)
    (hframe : Frame.split? frame = some (record, [])) {count : Nat} (sound : after.Sound)
    (hview : after.view =
      host.view.put target (some (log.handle.id, bytes ++ frame.take count))) :
    Shows v target (operations bytes) after ∨
      Shows v target (operations bytes ++ [record.operation]) after := by
  have hshows := Shows.of_put sound holds.same hview
  by_cases hshort : count < frame.length
  · left
    rwa [operations, records_torn holds.clean hframe hshort] at hshows
  · right
    rwa [List.take_of_length_le (Nat.not_lt.1 hshort), operations,
      (records_append holds.clean hframe).1, List.map_append] at hshows

theorem ensures_appendFrame (holds : log.Holds v target bytes host)
    (hframe : Frame.split? frame = some (record, [])) :
    (log.appendFrame frame).Ensures conduct
      (fun after => Shows v target (operations bytes) after ∨
        Shows v target (operations bytes ++ [record.operation]) after)
      (fun result after =>
        (∃ log', result = (.ok (), log') ∧ log.Follows log' (log.nextLsn + 1) ∧
          log'.Holds v target (bytes ++ frame) after) ∨
        conduct.Excuse ∧ ∃ e, result = (.error e, log) ∧ log.Holds v target bytes after)
      host := by
  unfold appendFrame
  have happend := records_append holds.clean hframe
  have hops := operations_of_records happend.1
  refine Script.Ensures.bind (Action.ensures_append holds.file holds.sound (Or.inl holds.shows)
    ?_ ?_ ?_)
  -- The append is refused: the frame is cut off again, which may be refused as well.
  · intro excuse fault
    refine Action.Ensures.script_bind ((ensures_rollback holds).mono (fun _ => Or.inl) ?_ ?_)
    · intro _ after hafter
      exact Or.inr ⟨excuse, _, rfl, hafter⟩
    · intro e after hafter
      exact Or.inr ⟨excuse, e, rfl, hafter⟩
  · intro count after hsound hview
    exact holds.torn hframe hsound hview
  -- The frame is in the file, and is forced to disk if the policy asks for it.
  · intro after hsound hview
    have hafter : ∀ log' : Appender, log'.handle = log.handle →
        log'.committed = log.committed + frame.length →
        log'.Holds v target (bytes ++ frame) after := by
      intro log' hhandle hcommitted
      refine ⟨hsound, holds.same.trans (.of_eq_put hview), ?_, happend.2, ?_⟩
      · rw [hhandle]
        exact View.file?_of_eq_put hview
      · rw [hcommitted, holds.committed, List.length_append]
    simp only
    split
    · refine Script.Ensures.mono (ensures_sync (hafter _ ?_ ?_)) ?_ ?_
      · rfl
      · rfl
      · intro synced hshows
        rw [hops] at hshows
        exact Or.inr hshows
      · rintro result synced ⟨log', hresult, ⟨hhandle, hnext⟩, hsynced⟩
        exact Or.inl ⟨log', hresult, ⟨hhandle, hnext⟩, hsynced⟩
    · exact Or.inl ⟨_, rfl, ⟨rfl, rfl⟩, hafter _ rfl rfl⟩

/-- An operation that does not fit a frame is refused, and leaves everything as it is. -/
theorem ensures_append_oversized {stop : Host → Prop}
    {post : Except Error UInt64 × Appender → Host → Prop}
    (large : Frame.payloadLimit < Payload.length operation) (same : stop host)
    (done : post (.error (.logWrite (.oversized (Payload.length operation))), log) host) :
    (log.append operation).Ensures conduct stop post host := by
  refine Script.Ensures.bind (Script.ensures_clock same ?_)
  intro now
  simp only [Frame.encode, large, if_true]
  exact done

/-- An operation that fits a frame is logged whole or not at all, and gets the number that was next;
one that does not is refused. -/
theorem ensures_append (holds : log.Holds v target bytes host) :
    (log.append operation).Ensures conduct
      (fun after => Shows v target (operations bytes) after ∨
        Payload.length operation ≤ Frame.payloadLimit ∧
          Shows v target (operations bytes ++ [operation]) after)
      (fun result after =>
        (∃ log' now, result = (.ok log.nextLsn, log') ∧
          Payload.length operation ≤ Frame.payloadLimit ∧ log.Follows log' (log.nextLsn + 1) ∧
          log'.Holds v target (bytes ++ Record.frame ⟨log.nextLsn, operation, now⟩) after) ∨
        (conduct.Excuse ∨ Frame.payloadLimit < Payload.length operation) ∧
          ∃ e, result = (.error e, log) ∧ log.Holds v target bytes after)
      host := by
  by_cases hlimit : Frame.payloadLimit < Payload.length operation
  · exact ensures_append_oversized hlimit (Or.inl holds.shows)
      (Or.inr ⟨Or.inr hlimit, _, rfl, holds⟩)
  · have hfits := Nat.not_lt.1 hlimit
    unfold append
    refine Script.Ensures.bind (Script.ensures_clock (Or.inl holds.shows) ?_)
    intro now
    simp only [Frame.encode, hlimit, if_false]
    have hframe := Frame.split?_ofPayload
      (show Payload.length (Record.operation ⟨log.nextLsn, operation, now⟩) ≤ _ from hfits)
    refine Script.Ensures.bind_of ((ensures_appendFrame holds hframe).mono ?_ fun _ _ h => h) ?_
    · rintro after (hold | hnew)
      · exact Or.inl hold
      · exact Or.inr ⟨hfits, hnew⟩
    · rintro result after (⟨log', rfl, hnext, hafter⟩ | ⟨excuse, e, rfl, hafter⟩)
      · exact Or.inl ⟨log', now, rfl, hfits, hnext, hafter⟩
      · exact Or.inr ⟨Or.inl excuse, e, rfl, hafter⟩

end Appender

end OrderedStore.Log
