import OrderedStore.Proofs.Log.Recovering

/-!
# What is written to a log

Appenders write a log file one after the other. Whatever they are asked for, the file holds what was
recovered from it, unless it was emptied, and behind that the frames of the records that were
appended since, and a reader finds just these records.

Main definitions:

- `Log.Appender.askAll`: serves requests to append, to force to disk, to empty the log, and to give
  the appender up for another one.
- `Log.Chronicle`: what a log file holds, and which number comes next.
- `Log.Course`: how a chronicle goes on with requests and replies.
- `Log.Origin`: log files that were just made, or recovered.

Main statement: `Log.Origin.reads_what_was_written`.
-/

namespace OrderedStore

namespace Log

/-! ## Numbers -/

section Numbers

variable {records : List Record} {next : UInt64}

/-- The numbers of records are consecutive, and `next` comes behind the last one. -/
def Numbered (records : List Record) (next : UInt64) : Prop :=
  ∀ i (h : i < records.length), records[i].lsn + UInt64.ofNat (records.length - i) = next

theorem numbered_nil (next : UInt64) : Numbered [] next :=
  fun i h => absurd h (Nat.not_lt_zero i)

theorem Numbered.append (h : Numbered records next) {record : Record} (hlsn : record.lsn = next) :
    Numbered (records ++ [record]) (next + 1) := by
  intro i hi
  simp only [List.length_append, List.length_singleton] at hi ⊢
  -- The records from before are one further away from the end now.
  by_cases hlt : i < records.length
  · have hcount : records.length + 1 - i = (records.length - i) + 1 := by omega
    rw [List.getElem_append_left hlt, hcount, UInt64.ofNat_add, ← UInt64.add_assoc, h i hlt]
    rfl
  · obtain rfl : i = records.length := by omega
    have hcount : records.length + 1 - records.length = 1 := by omega
    rw [List.getElem_append_right (Nat.le_refl _), hcount]
    simp [hlsn]

/-- The number of the last record, or 0. -/
def lastNumber (records : List Record) : UInt64 :=
  (records.getLast?.map (·.lsn)).getD 0

/-- What comes behind the last of some numbered records is the number after its own. -/
theorem Numbered.lastNumber (h : Numbered records next) (found : List Record) :
    Numbered records (lastNumber (found ++ records) + 1) := by
  rcases List.eq_nil_or_concat records with rfl | ⟨front, record, rfl⟩
  · exact numbered_nil _
  · rw [List.concat_eq_append] at h ⊢
    have hlast := h front.length (by simp)
    have hnext : Log.lastNumber (found ++ (front ++ [record])) + 1 = next := by
      rw [← hlast]
      simp [Log.lastNumber, ← List.append_assoc]
    rwa [hnext]

end Numbers

/-! ## Requests -/

/-- What the user of a log asks for. -/
inductive Request where
  | append (operation : Operation)
  | sync
  | truncate
  /-- The appender is given up, and another one is started on the file. -/
  | reopen (policy : SyncPolicy)

namespace Appender

/-- Serves a request. The number of a record is the only reply that says more than that all went
well. -/
def ask (path : Path) (log : Appender) :
    Request → Script (Except Error (Option UInt64) × Appender)
  | .append operation => do
    let (result, log) ← log.append operation
    return (result.map some, log)
  | .sync => do
    let (result, log) ← log.sync
    return (result.map fun () => none, log)
  | .truncate => do
    let (result, log) ← log.truncate
    return (result.map fun () => none, log)
  | .reopen policy => do
    match ← (start path policy).run with
    | .error e => return (.error e, log)
    | .ok log => return (.ok none, log)

/-- Serves requests one after the other. -/
def askAll (path : Path) :
    List Request → Appender → Script (List (Except Error (Option UInt64)) × Appender)
  | [], log => return ([], log)
  | request :: requests, log => do
    let (reply, log) ← log.ask path request
    let (replies, log) ← askAll path requests log
    return (reply :: replies, log)

end Appender

/-! ## Chronicles -/

/-- What a log file holds. -/
structure Chronicle where
  /-- The bytes that were there before anything was appended. -/
  front : Bytes
  /-- The records in these bytes. -/
  found : List Record
  /-- The records that were appended since. -/
  added : List Record
  /-- The number of the next record. -/
  next : UInt64

namespace Chronicle

/-- The bytes of the file: the frames of appended records stand behind what was there. -/
def bytes (chronicle : Chronicle) : Bytes :=
  chronicle.front ++ chronicle.added.flatMap (·.frame)

/-- All records in order. -/
def records (chronicle : Chronicle) : List Record :=
  chronicle.found ++ chronicle.added

/-- A file with some bytes, in which records were found, and to which nothing was added. -/
def opened (front : Bytes) (found : List Record) : Chronicle where
  front := front
  found := found
  added := []
  next := lastNumber found + 1

/-- The next record is appended. -/
def add (chronicle : Chronicle) (operation : Operation) (now : UInt64) : Chronicle :=
  { chronicle with
    added := chronicle.added ++ [⟨chronicle.next, operation, now⟩]
    next := chronicle.next + 1 }

theorem bytes_add (chronicle : Chronicle) (operation : Operation) (now : UInt64) :
    (chronicle.add operation now).bytes =
      chronicle.bytes ++ Record.frame ⟨chronicle.next, operation, now⟩ := by
  simp [bytes, add]

@[simp]
theorem bytes_opened (front : Bytes) (found : List Record) :
    (opened front found).bytes = front :=
  List.append_nil front

@[simp]
theorem records_opened (front : Bytes) (found : List Record) :
    (opened front found).records = found :=
  List.append_nil found

/-- Nothing is left but the number of the next record. -/
def cleared (chronicle : Chronicle) : Chronicle where
  front := []
  found := []
  added := []
  next := chronicle.next

/-- The next number is told from the file alone. -/
def renumbered (chronicle : Chronicle) : Chronicle :=
  { chronicle with next := lastNumber chronicle.records + 1 }

end Chronicle

/-- How a chronicle goes on with a request, and what is replied. -/
inductive Step : Chronicle → Request → Except Error (Option UInt64) → Chronicle → Prop where
  | appended {chronicle : Chronicle} {operation : Operation} (now : UInt64) :
      Payload.length operation ≤ Frame.payloadLimit →
      Step chronicle (.append operation) (.ok (some chronicle.next)) (chronicle.add operation now)
  | refused {chronicle : Chronicle} {operation : Operation} :
      Frame.payloadLimit < Payload.length operation →
      Step chronicle (.append operation)
        (.error (.logWrite (.oversized (Payload.length operation)))) chronicle
  | synced {chronicle : Chronicle} : Step chronicle .sync (.ok none) chronicle
  | truncated {chronicle : Chronicle} : Step chronicle .truncate (.ok none) chronicle.cleared
  | reopened {chronicle : Chronicle} {policy : SyncPolicy} :
      Step chronicle (.reopen policy) (.ok none) chronicle.renumbered

/-- How a chronicle goes on with requests, and what is replied. -/
inductive Course : Chronicle → List Request → List (Except Error (Option UInt64)) → Chronicle →
    Prop where
  | done {chronicle : Chronicle} : Course chronicle [] [] chronicle
  | step {first second last : Chronicle} {request : Request} {requests : List Request}
      {reply : Except Error (Option UInt64)} {replies : List (Except Error (Option UInt64))} :
      Step first request reply second → Course second requests replies last →
      Course first (request :: requests) (reply :: replies) last

/-- A chronicle whose bytes are frames of its records. The appended records are numbered up to the
next number. -/
structure Chronicle.Valid (chronicle : Chronicle) : Prop where
  run : FrameRun chronicle.front chronicle.found
  fit : ∀ record ∈ chronicle.added, Payload.length record.operation ≤ Frame.payloadLimit
  numbered : Numbered chronicle.added chronicle.next

namespace Chronicle.Valid

variable {chronicle chronicle' : Chronicle} {request : Request}
  {reply : Except Error (Option UInt64)}

theorem opened {front : Bytes} {found : List Record} (run : FrameRun front found) :
    (Chronicle.opened front found).Valid where
  run := run
  fit := fun _ hmem => absurd hmem List.not_mem_nil
  numbered := numbered_nil _

theorem frameRun (h : chronicle.Valid) : FrameRun chronicle.bytes chronicle.records :=
  h.run.append (frameRun_frames h.fit)

theorem step (h : chronicle.Valid) (step : Step chronicle request reply chronicle') :
    chronicle'.Valid := by
  cases step with
  | appended now fits =>
    refine ⟨h.run, ?_, h.numbered.append rfl⟩
    intro record hmem
    rcases List.mem_append.1 hmem with hold | hnew
    · exact h.fit record hold
    · obtain rfl := List.mem_singleton.1 hnew
      exact fits
  | refused | synced => exact h
  | truncated => exact ⟨.nil, fun _ hmem => absurd hmem List.not_mem_nil, numbered_nil _⟩
  | reopened => exact ⟨h.run, h.fit, h.numbered.lastNumber _⟩

end Chronicle.Valid

/-! ## Log files -/

/-- An appender on the file under a path, which holds what a chronicle says. -/
structure Appender.Keeps (log : Appender) (path : Path) (place : Location) (chronicle : Chronicle)
    (host : Host) : Prop where
  sound : host.Sound
  stored : host.Stores path place log.handle.id chronicle.bytes
  valid : chronicle.Valid
  committed : log.committed = chronicle.bytes.length
  next : log.nextLsn = chronicle.next

namespace Appender

variable {log : Appender} {path : Path} {place : Location} {chronicle : Chronicle} {host : Host}
  {bytes : Bytes} {id : Nat} {conduct : Conduct} {stop : Host → Prop}

theorem Keeps.holds (keeps : log.Keeps path place chronicle host) :
    log.Holds host.view place chronicle.bytes host where
  sound := keeps.sound
  same := .refl _ _
  file := keeps.stored.file
  clean := keeps.valid.frameRun.parse.2
  committed := keeps.committed

/-- An appender that holds the bytes of the next chronicle keeps it. -/
theorem Keeps.step {log' : Appender} {chronicle' : Chronicle} {request : Request}
    {reply : Except Error (Option UInt64)} {after : Host}
    (keeps : log.Keeps path place chronicle host) (step : Step chronicle request reply chronicle')
    (holds : log'.Holds host.view place chronicle'.bytes after)
    (next : log'.nextLsn = chronicle'.next) : log'.Keeps path place chronicle' after where
  sound := holds.sound
  stored := keeps.stored.change holds.same holds.file
  valid := keeps.valid.step step
  committed := holds.committed
  next := next

theorem ensures_lastLsn_stored (steady : conduct.Steady) {err : Error → Host → Prop}
    (sound : host.Sound) (stored : host.Stores path place id bytes) (same : stop host) :
    (lastLsn path).Ensures conduct stop
      (fun last after => last = lastNumber (records bytes) ∧ after = host) err host := by
  refine Action.Ensures.bind_of (Stream.ensures_start_stored steady stored same) ?_ fun _ _ h => h
  rintro stream _ ⟨rfl, rfl⟩
  refine Action.Ensures.bind (Action.ensures_ofScript
    (Stream.ensures_drain sound stored.file same ?_))
  intro failure stream _ _
  exact ⟨rfl, rfl⟩

/-- An appender is started behind the frames of a file, and counts on from the last of them. -/
theorem ensures_start_stored (policy : SyncPolicy) (steady : conduct.Steady)
    {err : Error → Host → Prop} (sound : host.Sound)
    (stored : host.Stores path place id chronicle.bytes)
    (valid : chronicle.Valid) (same : stop host) :
    (start path policy).Ensures conduct stop
      (fun log after => after = host ∧ log.Keeps path place chronicle.renumbered after)
      err host := by
  obtain ⟨content, hfind, _⟩ := stored.find
  have hkind : host.disk.kind? path = some .file := by
    simp [Disk.kind?, hfind, Node.kind]
  rw [start_eq]
  refine Action.Ensures.bind (Action.ensures_probe same ?_)
  rw [hkind]
  refine Action.Ensures.bind_of (ensures_lastLsn_stored steady sound stored same) ?_
    fun _ _ h => h
  rintro last _ ⟨rfl, rfl⟩
  refine Action.Ensures.bind
    (Action.ensures_openFile_keep_stored sound stored same (absurd steady) ?_)
  refine Action.Ensures.bind (Action.ensures_size stored.file same ?_)
  refine ⟨rfl, sound, stored, valid.step (@Step.reopened _ policy), rfl, ?_⟩
  rw [valid.frameRun.parse.1]
  rfl

/-- Where there is no file, an appender is started on a new one. -/
theorem ensures_start_made (policy : SyncPolicy) (steady : conduct.Steady)
    {err : Error → Host → Prop} (sound : host.Sound) (makes : host.Makes path) :
    (start path policy).Ensures conduct (fun _ => True)
      (fun log after => ∃ place, log.Keeps path place (.opened [] []) after) err host := by
  rw [start_eq]
  refine Action.Ensures.bind (Action.ensures_probe trivial ?_)
  rw [(makes.made sound).1]
  refine Action.Ensures.bind (Action.ensures_pure ?_)
  refine Action.Ensures.bind (Action.ensures_openFile_made steady sound makes trivial ?_)
  intro place id after hsound hstored
  refine ⟨trivial, Action.Ensures.bind (Action.ensures_size hstored.file trivial ?_)⟩
  exact ⟨place, hsound, hstored, .opened .nil, rfl, rfl⟩

/-- Every request is served as the chronicle goes on. -/
theorem Keeps.ensures_ask (keeps : log.Keeps path place chronicle host) (request : Request) :
    (log.ask path request).Ensures .ample (fun _ => True)
      (fun result after => ∃ chronicle', Step chronicle request result.1 chronicle' ∧
        result.2.Keeps path place chronicle' after) host := by
  have holds := keeps.holds
  cases request with
  | append operation =>
    unfold ask
    rcases Nat.lt_or_ge Frame.payloadLimit (Payload.length operation) with hlarge | hfits
    · refine Script.Ensures.bind (ensures_append_oversized hlarge trivial ?_)
      exact ⟨chronicle, .refused hlarge, keeps⟩
    · refine Script.Ensures.bind_of ((ensures_append holds).mono (fun _ _ => trivial)
        fun _ _ h => h) ?_
      rintro result after (⟨log', now, rfl, _, hfollows, hholds⟩ | ⟨cause, _⟩)
      · have hstep : Step chronicle (.append operation) (.ok (some log.nextLsn))
            (chronicle.add operation now) := by
          rw [keeps.next]
          exact .appended now hfits
        refine ⟨_, hstep, keeps.step hstep ?_ ?_⟩
        · rwa [Chronicle.bytes_add, ← keeps.next]
        · rw [hfollows.nextLsn, keeps.next]
          rfl
      · exact absurd cause (not_or.2 ⟨Conduct.not_excuse_ample, Nat.not_lt.2 hfits⟩)
  | sync =>
    unfold ask
    refine Script.Ensures.bind_of ((ensures_sync holds).mono (fun _ _ => trivial)
      fun _ _ h => h) ?_
    rintro result after ⟨log', rfl, hfollows, hholds⟩
    exact ⟨_, .synced, keeps.step .synced hholds (hfollows.nextLsn.trans keeps.next)⟩
  | truncate =>
    unfold ask
    refine Script.Ensures.bind_of ((ensures_truncate holds).mono (fun _ _ => trivial)
      fun _ _ h => h) ?_
    rintro result after (⟨log', rfl, hfollows, hholds⟩ | ⟨unsteady, _⟩)
    · exact ⟨_, .truncated, keeps.step .truncated hholds (hfollows.nextLsn.trans keeps.next)⟩
    · exact absurd Conduct.steady_ample unsteady
  | reopen policy =>
    unfold ask
    have hstart : (start path policy).Ensures .ample (fun _ => True)
        (fun log after => after = host ∧ log.Keeps path place chronicle.renumbered after)
        (fun _ _ => False) host :=
      ensures_start_stored policy Conduct.steady_ample keeps.sound keeps.stored keeps.valid trivial
    refine Action.Ensures.script_bind (hstart.mono (fun _ h => h) ?_ fun _ _ h => h.elim)
    rintro log' _ ⟨rfl, hkeeps⟩
    exact ⟨_, .reopened, hkeeps⟩

theorem Keeps.ensures_askAll (keeps : log.Keeps path place chronicle host)
    (requests : List Request) :
    (log.askAll path requests).Ensures .ample (fun _ => True)
      (fun result after => ∃ chronicle', Course chronicle requests result.1 chronicle' ∧
        result.2.Keeps path place chronicle' after) host := by
  -- The chronicle and the appender change from request to request.
  induction requests generalizing log chronicle host with
  | nil => exact ⟨chronicle, .done, keeps⟩
  | cons request requests ih =>
    unfold askAll
    refine Script.Ensures.bind_of (keeps.ensures_ask request) ?_
    rintro ⟨reply, log'⟩ between ⟨second, hstep, hkeeps⟩
    refine Script.Ensures.bind_of (ih hkeeps) ?_
    rintro ⟨replies, log''⟩ after ⟨last, hcourse, hlast⟩
    exact ⟨last, .step hstep hcourse, hlast⟩

/-- A reader that is started on the file finds all records, and ends where the file ends. -/
theorem Keeps.exists_drain (keeps : log.Keeps path place chronicle host) :
    ∃ stream stream', (Stream.start path).perform host = (.ok stream, host) ∧
      stream.drain.run host = ((chronicle.records, none, stream'), host) ∧
      stream'.position = chronicle.bytes.length := by
  obtain ⟨hrecords, hclean⟩ := keeps.valid.frameRun.parse
  have hstart := Action.perform_of_ensures
    (Stream.ensures_start_stored Conduct.steady_own keeps.stored trivial)
  have hdrain : (Stream.drain { handle := log.handle }).Ensures .own (fun _ => True)
      (fun result after => result.1 = chronicle.records ∧ result.2.1 = none ∧
        result.2.2.position = chronicle.bytes.length ∧ after = host) host := by
    refine Stream.ensures_drain keeps.sound keeps.stored.file trivial ?_
    intro failure stream' hfailure hposition
    rw [hclean] at hfailure hposition
    refine ⟨hrecords, ?_, hposition, rfl⟩
    rw [← Option.not_isSome_iff_eq_none]
    exact fun hsome => hfailure.1 hsome rfl
  obtain ⟨hfound, hnone, hposition, hsame⟩ := hdrain.run
  exact ⟨_, _, hstart, Prod.ext (Prod.ext hfound (Prod.ext hnone rfl)) hsame, hposition⟩

end Appender

/-- The file of a log before an appender is started on it: it is to be made, or it is empty, or it
has just been recovered, with some records in its bytes. -/
inductive Origin (path : Path) : Host → (front : Bytes) → (found : List Record) → Prop where
  | missing {host : Host} : host.Makes path → Origin path host [] []
  | empty {host : Host} : host.disk.content? path = some [] → Origin path host [] []
  | recovered {before host : Host} {bytes front : Bytes} {found : List Record}
      {report : Recovery} :
      before.Sound → before.disk.content? path = some bytes →
      (Recovery.recover path).perform before = (.ok (found, report), host) →
      host.disk.content? path = some front → Origin path host front found

namespace Origin

variable {host before : Host} {path : Path} {front bytes : Bytes} {found : List Record}
  {report : Recovery}

/-- What recovery leaves in a file are the frames of the records that it gives. -/
theorem frameRun_of_recover (sound : before.Sound)
    (content : before.disk.content? path = some bytes)
    (recovered : (Recovery.recover path).perform before = (.ok (found, report), host))
    (left : host.disk.content? path = some front) : FrameRun front found := by
  obtain ⟨place, id, stored⟩ := Host.content?_eq_some_iff.1 content
  by_cases hclean : leftover bytes = []
  · have hrecover := Recovery.perform_recover_clean sound stored hclean
    rw [recovered] at hrecover
    cases hrecover
    obtain rfl := Option.some.inj (content.symm.trans left)
    exact frameRun_of_clean hclean
  · obtain ⟨after, hrecover, _, hafter⟩ := Recovery.exists_recover_damaged sound stored hclean
    rw [recovered] at hrecover
    cases hrecover
    have hleft := Host.content?_eq_some_iff.2 ⟨place, id, hafter⟩
    obtain rfl := Option.some.inj (hleft.symm.trans left)
    exact (longestRun_intact bytes).run

/-- An appender is started on the file, and finds what it holds. -/
theorem exists_start (sound : host.Sound) (origin : Origin path host front found)
    (policy : SyncPolicy) :
    ∃ log opened place, (Appender.start path policy).perform host = (.ok log, opened) ∧
      log.Keeps path place (.opened front found) opened := by
  have hfile : FrameRun front found → host.disk.content? path = some front →
      ∃ log opened place, (Appender.start path policy).perform host = (.ok log, opened) ∧
        log.Keeps path place (.opened front found) opened := by
    intro hrun hcontent
    obtain ⟨place, id, stored⟩ := Host.content?_eq_some_iff.1 hcontent
    rw [← Chronicle.bytes_opened front found] at stored
    obtain ⟨log, opened, hstart, rfl, hkeeps⟩ := Action.exists_of_ensures
      (Appender.ensures_start_stored policy Conduct.steady_own sound stored (.opened hrun) trivial)
    -- The number that is told from the file is the one it was opened with.
    rw [Chronicle.renumbered, Chronicle.records_opened] at hkeeps
    exact ⟨log, opened, place, hstart, hkeeps⟩
  cases origin with
  | missing makes =>
    obtain ⟨log, opened, hstart, place, hkeeps⟩ := Action.exists_of_ensures
      (Appender.ensures_start_made policy Conduct.steady_own sound makes)
    exact ⟨log, opened, place, hstart, hkeeps⟩
  | empty content => exact hfile .nil content
  | recovered sound' content recover left =>
    exact hfile (frameRun_of_recover sound' content recover left) left

/-- Appenders write a log file one after the other, which was just made or recovered. The file holds
what was recovered, unless the log was emptied since, and behind it the frames of what was appended;
a change that is refused leaves no trace in it. Every record gets the number that was announced, and
the next number is one more; emptying the log does not change it, but an appender that is started on
the file counts on from its last record. A reader finds all these records, ends without failure, and
stands at the end of the file then. Sums are taken modulo 2^64: while no record has the last number,
they are sums of natural numbers. -/
theorem reads_what_was_written (sound : host.Sound) (origin : Origin path host front found)
    (policy : SyncPolicy) :
    ∃ log opened, (Appender.start path policy).perform host = (.ok log, opened) ∧
      log.nextLsn = lastNumber found + 1 ∧
      ∀ requests, (log.askAll path requests).FindsRoom opened →
        ∃ replies log' after chronicle stream stream',
          (log.askAll path requests).run opened = ((replies, log'), after) ∧
          Course (.opened front found) requests replies chronicle ∧
          log'.nextLsn = chronicle.next ∧ Numbered chronicle.added chronicle.next ∧
          after.disk.content? path = some chronicle.bytes ∧
          (Stream.start path).perform after = (.ok stream, after) ∧
          stream.drain.run after = ((chronicle.records, none, stream'), after) ∧
          stream'.position = chronicle.bytes.length := by
  obtain ⟨log, opened, place, hstart, hkeeps⟩ := exists_start sound origin policy
  refine ⟨log, opened, hstart, hkeeps.next, fun requests room => ?_⟩
  have hrun := (hkeeps.ensures_askAll requests).run_of_findsRoom room
  generalize (log.askAll path requests).run opened = result at hrun ⊢
  obtain ⟨⟨replies, log'⟩, after⟩ := result
  obtain ⟨chronicle, hcourse, hlast⟩ := hrun
  obtain ⟨stream, stream', hstream, hdrain, hposition⟩ := hlast.exists_drain
  exact ⟨replies, log', after, chronicle, stream, stream', rfl, hcourse, hlast.next,
    hlast.valid.numbered, Host.content?_eq_some_iff.2 ⟨place, _, hlast.stored⟩, hstream, hdrain,
    hposition⟩

/-- A log that is emptied twice. The appender goes on counting the first time; the second time
another one is started before the next record, and counts from the beginning. -/
theorem reads_what_was_written_emptied :
    ∃ (path : Path) (log : Appender) (opened : Host) (requests : List Request),
      Host.empty.Makes path ∧ (Appender.start path .everyWrite).perform .empty = (.ok log, opened) ∧
      (log.askAll path requests).FindsRoom opened ∧
      ∃ (log' : Appender) (after : Host) (chronicle : Chronicle) (stream stream' : Stream),
        (log.askAll path requests).run opened =
          (([.ok (some 1), .ok none, .ok (some 2), .ok none, .ok (some 3), .ok none, .ok none,
            .ok (some 1)], log'), after) ∧
        chronicle.bytes = Record.frame ⟨1, .one (.delete []), 0⟩ ∧ log'.nextLsn = chronicle.next ∧
        after.disk.content? path = some chronicle.bytes ∧
        (Stream.start path).perform after = (.ok stream, after) ∧
        stream.drain.run after = ((chronicle.records, none, stream'), after) := by
  let path := Path.ofText "/log"
  let requests : List Request := [.append (.one (.put [1] [2])), .truncate,
    .append (.batch []), .reopen (.everyEntries 2), .append (.one (.put [] [])), .truncate,
    .reopen .everyWrite, .append (.one (.delete []))]
  have hopens : ∃ opened, Host.empty.disk.openOrCreate path false = .ok opened := by
    have hsome : (Host.empty.disk.openOrCreate path false).toOption.isSome = true := by
      decide +kernel
    cases hopened : Host.empty.disk.openOrCreate path false with
    | ok opened => exact ⟨opened, rfl⟩
    | error fault =>
      rw [hopened] at hsome
      cases hsome
  have hmakes : Host.empty.Makes path := ⟨by decide +kernel, hopens⟩
  obtain ⟨log, opened, hstart, hroom, hreplies, hlast⟩ : ∃ log opened,
      (Appender.start path .everyWrite).perform .empty = (.ok log, opened) ∧
      (log.askAll path requests).FindsRoom opened ∧
      ((log.askAll path requests).run opened).1.1 =
        [.ok (some 1), .ok none, .ok (some 2), .ok none, .ok (some 3), .ok none, .ok none,
          .ok (some 1)] ∧
      ((log.askAll path requests).run opened).2.disk.content? path =
        some (Record.frame ⟨1, .one (.delete []), 0⟩) :=
    ⟨_, _, Script.eq_of_succeeded (by decide +kernel), by decide +kernel⟩
  obtain ⟨log', opened', hstart', -, hserved⟩ :=
    reads_what_was_written Host.sound_empty (.missing hmakes) .everyWrite
  cases hstart.symm.trans hstart'
  obtain ⟨replies, log', after, chronicle, stream, stream', hrun, -, hnext, -, hcontent, hstream,
    hdrain, -⟩ := hserved requests hroom
  rw [hrun] at hreplies hlast
  have hbytes := Option.some.inj (hcontent.symm.trans hlast)
  refine ⟨path, log, opened, requests, hmakes, hstart, hroom, log', after, chronicle, stream,
    stream', ?_, hbytes, hnext, hcontent, hstream, hdrain⟩
  rw [hrun]
  exact congrArg (fun replies => ((replies, log'), after)) hreplies

end Origin

end Log

end OrderedStore
