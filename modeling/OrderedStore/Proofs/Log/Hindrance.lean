import OrderedStore.Proofs.Host.Hindrance
import OrderedStore.Proofs.Log.Writing

/-!
# Hindered starts of a log

What a log cannot be read for is taken for the end of it, so its reading must not be hindered. All
else about a log may be, when it is started.

Main statements: `Log.Recovery.recover_settles`, `Log.Appender.start_settles`.
-/

namespace OrderedStore

/-- What is found under a path is there. -/
theorem Action.found_of_yields {host between : Host} {path : Path} {found : Option FileKind}
    (run : (probe path).run.Yields .frail host (.ok found) between) :
    found = host.disk.kind? path ∧ between = host := by
  have hprobe : (probe path).Ensures .frail (fun _ => True)
      (fun found last => found = host.disk.kind? path ∧ last = host) (fun _ _ => False) host :=
    ensures_probe trivial ⟨rfl, rfl⟩
  exact hprobe.yields run

/-- What is found where no directory is, is a file. -/
theorem Action.file?_of_found {host : Host} {path : Path} {target : Location}
    (names : host.view.Names path target) (clear : host.view.directory target = false)
    (found : (host.disk.kind? path).isSome = true) :
    ∃ id bytes, host.view.file? target = some (id, bytes) := by
  cases hfile : host.view.file? target with
  | some file => exact ⟨file.1, file.2, rfl⟩
  | none =>
    have hnone : host.view.kind? target = none := by simp [View.kind?, hfile, clear]
    rcases kind?_of_names names with ⟨_, hkind⟩ | ⟨_, hkind⟩
    · rw [hkind] at found
      cases found
    · rw [hkind, hnone] at found
      cases found

namespace Log

variable {may : Host → Call → Prop} {host after : Host} {path : Path} {target : Location}
  {handle : Handle} {id : Nat} {bytes : Bytes} {call : Call}

/-- The calls that read a file. -/
def Reads (handle : Handle) : Call → Prop
  | .read other _ _ | .size other => other = handle
  | _ => False

theorem reads_read (handle : Handle) (offset count : Nat) :
    Reads handle (.read handle offset count) :=
  rfl

theorem Reads.kept (reads : Reads handle call) (host : Host) : (host.answer call).2 = host := by
  cases call with
  | read other offset count => rfl
  | size other => rfl
  | _ => exact reads.elim

/-! ## Calls of a stream -/

namespace Stream

/-- A stream stays on its file. -/
theorem gives_fetch (stream : Stream) (count : Nat) :
    (stream.fetch count).Gives (Reads stream.handle) fun found =>
      found.2.handle = stream.handle := by
  unfold fetch
  simp only
  split
  · rfl
  · refine Script.Gives.bind (Action.only_attempt (Script.only_call (reads_read _ _ _))) ?_
    rintro (e | chunk) _
    · rfl
    · simp only
      split
      · rfl
      · rfl

theorem gives_next (stream : Stream) :
    stream.next.Gives (Reads stream.handle) fun found => found.2.handle = stream.handle := by
  unfold next
  refine (gives_fetch stream _).bind ?_
  rintro ⟨e | raw, first⟩ hfirst
  · exact hfirst
  simp only
  split
  · exact hfirst
  split
  · exact hfirst
  split
  · exact hfirst
  -- The payload is read by the stream that the header left, which is on the same file.
  have hfetch := gives_fetch first (Header.decode raw).length
  rw [show first.handle = stream.handle from hfirst] at hfetch
  refine hfetch.bind ?_
  rintro ⟨e | payload, second⟩ hsecond
  · exact hsecond
  simp only
  split
  · exact hsecond
  split
  · exact hsecond
  · exact hsecond

theorem only_drainBehind (read : List Record) (count : Nat) (stream : Stream)
    (same : stream.handle = handle) :
    (drainBehind read count stream).Only (Reads handle) := by
  induction count generalizing read stream with
  | zero => trivial
  | succ count ih =>
    subst same
    refine (gives_next stream).bind ?_
    rintro ⟨e | _ | record, behind⟩ hbehind
    · trivial
    · trivial
    · exact ih _ behind hbehind

theorem only_drain (stream : Stream) : stream.drain.Only (Reads stream.handle) := by
  have hsize : (Script.call (.size stream.handle)).Only (Reads stream.handle) :=
    ⟨rfl, fun _ => trivial⟩
  exact hsize.bind fun _ => only_drainBehind _ _ stream rfl

end Stream

/-! ## Starting a log -/

/-- A file whose reading may not be hindered. -/
def Legible (may : Host → Call → Prop) (host : Host) (id : Nat) : Prop :=
  ∀ call, Reads ⟨id⟩ call → ¬ may host call

/-- A log that is there is read unhindered. -/
theorem drain_settles {α : Type} {f : List Record × Option Error × Stream → Action α}
    (names : host.view.Names path target) (file : host.view.file? target = some (id, bytes))
    (legible : Legible may host id) (rest : ∀ found, (f found).Brittle) :
    (do
      let stream ← Stream.start path
      let found ← Action.ofScript stream.drain
      f found).Settles may host := by
  have hbrittle : (Stream.start path).Brittle :=
    (Action.brittle_openFile path .read).bind fun _ => Action.brittle_pure _
  refine (hbrittle.settles host).bind fun stream between hstart => ?_
  have hstream : (Stream.start path).Ensures .frail (fun _ => True)
      (fun stream last => stream = { handle := ⟨id⟩ } ∧ last = host)
      (fun _ last => Conduct.frail.Excuse ∧ last = host) host :=
    ensures_start names file trivial
  obtain ⟨rfl, rfl⟩ := hstream.yields hstart
  refine Action.Settles.bind ?_ fun found last _ => (rest found).settles last
  -- A drain that is hindered ends early and does not fail, so this is no case of `Action.Brittle`.
  intro result last run
  refine Or.inl (run.yields_of_kept (fun h => h) ?_)
  refine Script.Only.mono (Action.only_ofScript (Stream.only_drain _)) ?_
  exact fun call reads => ⟨reads.kept between, legible call reads⟩

theorem Recovery.recover_settles (names : host.view.Names path target)
    (file : host.view.file? target = some (id, bytes)) (legible : Legible may host id) :
    (Recovery.recover path).Settles may host := by
  have hscan : (Recovery.scan path).Settles may host :=
    drain_settles names file legible fun _ => Action.brittle_pure _
  refine hscan.bind fun found between _ => Action.Brittle.settles ?_ between
  obtain ⟨records, recovery, length⟩ := found
  simp only
  split
  · exact Action.brittle_pure _
  refine (Action.brittle_openFile _ _).bind fun handle => ?_
  refine (Action.brittle_resize handle length).bind fun _ => ?_
  exact (Action.brittle_sync handle).bind fun _ => Action.brittle_pure _

namespace Appender

theorem brittle_openEnd (path : Path) (policy : SyncPolicy) (last : UInt64) :
    (openEnd path policy last).Brittle := by
  refine (Action.brittle_openFile path .keep).bind fun handle => ?_
  exact (Action.brittle_size handle).bind fun _ => Action.brittle_pure _

theorem start_settles {policy : SyncPolicy} (names : host.view.Names path target)
    (clear : host.view.directory target = false)
    (legible : ∀ id bytes, host.view.file? target = some (id, bytes) → Legible may host id) :
    (Appender.start path policy).Settles may host := by
  rw [start_eq]
  refine ((Action.brittle_probe path).settles host).bind fun found between hprobe => ?_
  obtain ⟨hfound, rfl⟩ := Action.found_of_yields hprobe
  have hend : ∀ last, (openEnd path policy last).Brittle := brittle_openEnd path policy
  split
  · rename_i hsome
    obtain ⟨id, bytes, hfile⟩ := Action.file?_of_found names clear (hfound ▸ hsome)
    refine Action.Settles.bind ?_ fun last host _ => (hend last).settles host
    exact drain_settles names hfile (legible id bytes hfile) fun _ => Action.brittle_pure _
  · exact ((Action.brittle_pure _).bind hend).settles _

end Appender

end Log

end OrderedStore
