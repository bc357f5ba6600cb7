import OrderedStore.Proofs.Portable.HinderedOpening

/-!
# Stores that are refused calls

Any call may be refused while a store is changed, closed or opened again, as long as the log can be
read, and forced to disk while a change is logged. A store that cannot be closed in good order
leaves in its log what it could not write out, and a store that cannot be opened leaves the log to
the next opening.

Main definitions:

- `Portable.Refusable`: the calls that may be refused while a store is closed and opened again.
- `Portable.Unforced`: the calls that may be refused while a store is changed.

Main statements: `Portable.Live.change_refused`, `Portable.Live.close_refused`,
`Portable.start_refused`.
-/

namespace OrderedStore.Portable

open Log (Operation Loggable)

variable {may : Host → Call → Prop} {host after : Host} {config : Config} {path : Path}
  {root : Location} {used : Nat} {ops : List Operation} {operation : Operation}
  {store store' : Portable} {result : Except Error Unit}

/-! ## Refusals -/

/-- The calls that may be refused while a store is closed and opened again: all but those that read
the log. What cannot be read of the log is taken for the end of it. -/
def Refusable (root : Location) (host : Host) : Call → Prop
  | .read handle _ _ | .size handle => ¬ LogFile host root handle
  | _ => True

/-- The calls that may be refused while a store is changed: all but those that force the log to
disk. What is in the log then may be there although the change was refused. -/
def Unforced (store : Portable) : Host → Call → Prop :=
  fun _ call => call ≠ .sync store.log.handle

theorem legible_refusable (host : Host) (id : Nat) (bytes : Bytes)
    (file : host.view.file? (logPlace root) = some (id, bytes)) :
    Log.Legible (Refusable root) host id := by
  intro call reads hmay
  cases call with
  | read handle offset count =>
    obtain rfl : handle = ⟨id⟩ := reads
    exact hmay ⟨bytes, file⟩
  | size handle =>
    obtain rfl : handle = ⟨id⟩ := reads
    exact hmay ⟨bytes, file⟩
  | _ => exact reads

section Log

variable {α : Type} {log log' : Log.Appender} {handle : Handle} {script : Script α} {value : α}

/-- Where the log can be forced to disk, the conduct `Conduct.frail` takes the refusals of the calls
of an appender into account. -/
theorem yields_of_forced (run : script.Endures may host value after)
    (only : script.Only (Appends handle)) (forced : ∀ host, ¬ may host (.sync handle)) :
    script.Yields .frail host value after := by
  refine run.yields_of_foreseen id (only.mono fun call appends host reply hmay hfault => ?_)
  cases call with
  | append other data => trivial
  | resize other size => trivial
  | clock => cases hfault
  | sync other =>
    obtain rfl : other = handle := appends
    exact absurd hmay (forced host)
  | _ => exact appends.elim

/-- The log is forced to disk, or nothing happens to it. -/
theorem log_sync_refused {result : Except Error Unit}
    (run : log.sync.Endures may host (result, log') after) :
    log.sync.Yields .frail host (result, log') after ∨ (∃ e, result = .error e) ∧ after = host := by
  have hrun : (Script.call (.sync log.handle) >>= _).Endures may host (result, log') after := run
  obtain ⟨reply, between, hcall, hdone⟩ := hrun.of_bind
  rcases hcall.of_call with hanswer | ⟨_, hfault, rfl⟩
  · refine Or.inl (.step (Or.inl ⟨hanswer, False.elim⟩) ?_)
    cases reply <;> cases hdone <;> exact .done
  · cases reply with
    | ok done => cases hfault
    | error fault =>
      cases hdone
      exact Or.inr ⟨⟨_, rfl⟩, rfl⟩

end Log

/-! ## Writing out -/

/-- A write-out may be refused any call: the store is live on its history, unless the log could not
be forced to disk when it had been emptied. -/
theorem Live.writeOut_refused (live : Live .frail path root used ops store host)
    (small : used + 2 < UInt64.size)
    (run : store.writeOut.Endures may host (result, store') after) :
    (Live .frail path root (used + 1) ops store' after ∧ store'.lockFile = store.lockFile) ∨
      (∃ host, may host (.sync store.log.handle)) ∧ (∃ e, result = .error e) ∧
        Held .frail path root (used + 1) ops store.lockFile after := by
  obtain ⟨logged, recent, served, tabled, volumes, servedVolumes, bytes, serving, steady⟩ :=
    live.parts
  cases writeOut_run run with
  | nothing _ => exact Or.inl ⟨live.mono (Nat.le_succ _), rfl⟩
  | unflushed hnonempty hflush =>
    -- A table that nobody lists may be left. It holds what the log holds, so it says nothing new.
    obtain _ | hstacked := serving.flush_endured live.fit hnonempty hflush
    exact Or.inl ⟨serving.unflushed live.reaches live.tidy live.fit steady small rfl rfl
      (hstacked.imp_right fun h => ⟨Conduct.not_steady_frail, h⟩), rfl⟩
  | @flushed _ _ _ log _ _ between emptied _ hnonempty hflush htruncate htell =>
    obtain @⟨_, table, _, hstacked⟩ := serving.flush_endured live.fit hnonempty hflush
    let tables : TableStack := { store.tables with
      tables := table :: store.tables.tables
      nextId := store.tables.nextId + 1 }
    have hensures := @Serving.ensures_truncate .frail _ _ _ _ _
      { store with tables, memtable := .empty } _ _ _ _ _
      (serving.flushed small hstacked rfl rfl) (hstacked.same.reaches live.reaches)
      (live.tidy.sameOutside hstacked.same) live.fit serving.numbers.2
    have hsettled : store.log.truncate.Yields .frail between (result, log) emptied ∨
        (∃ host, may host (.sync store.log.handle)) ∧ (∃ e, result = .error e) ∧
          store.log.truncate.Stops .frail between emptied := by
      by_cases hforced : ∃ host, may host (.sync store.log.handle)
      · exact (htruncate.yields_or_stops (brittle_truncate _)).imp_right fun h => ⟨hforced, h⟩
      · exact Or.inl (yields_of_forced htruncate (only_log_truncate _) (not_exists.1 hforced))
    rcases hsettled with hyields | ⟨hforced, hfailed, hstops⟩
    · obtain ⟨hlive, _⟩ := hensures.yields hyields
      obtain ⟨_, hsound, hview⟩ := tell_endured hlive.sound htell
      exact Or.inl ⟨hlive.sameView hsound hview, rfl⟩
    · have hheld := hensures.stops hstops
      obtain ⟨_, hsound, hview⟩ := tell_endured hheld.sound htell
      exact Or.inr ⟨hforced, hfailed, hheld.sameView hsound hview⟩

theorem Live.writeOutIfFull_refused (live : Live .frail path root used ops store host)
    (small : used + 2 < UInt64.size) (forced : ∀ host, ¬ may host (.sync store.log.handle))
    (run : store.writeOutIfFull.Endures may host store' after) :
    Live .frail path root (used + 1) ops store' after := by
  have hwritten : ∀ {result written between},
      store.writeOut.Endures may host (result, written) between →
      Live .frail path root (used + 1) ops written between := by
    intro result written between hwrite
    rcases live.writeOut_refused small hwrite with ⟨hlive, _⟩ | ⟨⟨host, hmay⟩, _⟩
    · exact hlive
    · exact absurd hmay (forced host)
  cases writeOutIfFull_run run with
  | below _ => exact live.mono (Nat.le_succ _)
  | written hwrite => exact hwritten hwrite
  | putOff hwrite htell =>
    -- The failure is only reported.
    have hlive := hwritten hwrite
    obtain ⟨_, hsound, hview⟩ := tell_endured hlive.sound htell
    exact hlive.sameView hsound hview

/-! ## Changes -/

theorem Live.commit_refused (live : Live .frail path root used ops store host)
    (small : used + 2 < UInt64.size) (forced : ∀ host, ¬ may host (.sync store.log.handle))
    (nonempty : operation.mutations ≠ [])
    (run : (store.commit operation).Endures may host (result, store') after) :
    result = .ok () ∧ Live .frail path root (used + 1) (ops ++ [operation]) store' after ∨
      (∃ e, result = .error e) ∧ Live .frail path root (used + 1) ops store' after := by
  obtain ⟨logged, recent, served, tabled, volumes, servedVolumes, bytes, serving, steady⟩ :=
    live.parts
  have hensures := @Log.Appender.ensures_append .frail _ _ _ _ _ operation serving.log
  cases commit_run run with
  | logged happend hwrite =>
    -- The operation is in the log: it counts from here on, whatever becomes of the memtable.
    obtain ⟨_, now, heq, hfits, hfollows, hholds⟩ | ⟨_, _, heq, _⟩ :=
      hensures.yields (yields_of_forced happend (only_log_append _ _) forced)
    swap
    · cases heq
    cases heq
    have hops := Log.operations_of_records
      (Log.records_frame ⟨store.log.nextLsn, operation, now⟩ serving.log.clean hfits)
    have hlive := serving.live_commit live.reaches live.tidy live.fit steady ⟨hfits, nonempty⟩
      hholds hops
    rw [← hfollows.handle] at forced
    exact Or.inl ⟨rfl, hlive.writeOutIfFull_refused small forced hwrite⟩
  | unlogged happend =>
    obtain ⟨_, _, heq, _⟩ | ⟨_, _, heq, hholds⟩ :=
      hensures.yields (yields_of_forced happend (only_log_append _ _) forced)
    · cases heq
    cases heq
    exact Or.inr ⟨⟨_, rfl⟩, (serving.live_of_holds live.reaches live.tidy live.fit steady
      hholds).mono (Nat.le_succ _)⟩

/-- A change is made whole or not at all, as it is acknowledged or refused. -/
theorem Live.change_refused (live : Live .frail path root used ops store host)
    (small : used + 2 < UInt64.size) {change : Change}
    (run : (store.change change).Endures store.Unforced host (result, store') after) :
    result = .ok () ∧ Live .frail path root (used + 1) (ops ++ change.operations) store' after ∨
      (∃ e, result = .error e) ∧ Live .frail path root (used + 1) ops store' after := by
  rcases change.commits with ⟨operation, hops, h⟩ | ⟨hnone, h⟩ <;> rw [h store] at run
  · rw [hops]
    refine live.commit_refused small (fun _ hmay => hmay rfl) ?_ run
    exact change.nonempty operation (hops ▸ List.mem_singleton_self operation)
  · cases run
    rw [hnone, List.append_nil]
    exact Or.inl ⟨rfl, live.mono (Nat.le_succ _)⟩

/-! ## Closing and opening -/

/-- The lock of a directory is given up. -/
theorem Held.abandon_refused {done : Unit}
    (held : Held .frail path root used ops store.lockFile host)
    (run : store.abandon.Endures may host done after) :
    Rests .frail path root used ops after ∧ Unlocked after.view root := by
  have hfree : store.abandon.Ensures .frail (Rests .frail path root used ops)
      (fun _ last => Rests .frail path root used ops last ∧ Unlocked last.view root) host :=
    held.toRests.ensures_unlock held.locks fun _ hlast hunlocked _ => ⟨hlast, hunlocked⟩
  exact hfree.yields (yields_of_foreseen run (Script.only_call fun _ h => by cases h))

/-- A store is closed in good order or not: the directory holds the history, and its lock is
free. -/
theorem Live.close_refused (live : Live .frail path root used ops store host)
    (small : used + 2 < UInt64.size) (run : store.close.Endures may host result after) :
    Rests .frail path root (used + 1) ops after ∧ Unlocked after.view root := by
  cases close_run run with
  | unwritten hwrite habandon =>
    -- The store is given up at once, and the log is left to the next opening.
    rcases live.writeOut_refused small hwrite with ⟨hlive, hlock⟩ | ⟨_, _, hheld⟩
    · exact (hlock ▸ hlive.held).abandon_refused habandon
    · exact hheld.abandon_refused habandon
  | @written store' _ _ _ _ _ synced _ _ hwrite hsync htell habandon =>
    obtain ⟨hlive, _⟩ | ⟨_, ⟨_, he⟩, _⟩ := live.writeOut_refused small hwrite
    swap
    · cases he
    have hsynced : Held .frail path root (used + 1) ops store'.lockFile synced := by
      rcases log_sync_refused hsync with hyields | ⟨_, rfl⟩
      · obtain ⟨logged, recent, served, tabled, volumes, servedVolumes, bytes, serving, steady⟩ :=
          hlive.parts
        obtain ⟨_, heq, _, hholds⟩ := (Log.Appender.ensures_sync serving.log).yields hyields
        cases heq
        exact (serving.live_of_holds hlive.reaches hlive.tidy hlive.fit steady hholds).held
      · exact hlive.held
    obtain ⟨_, hsound, hview⟩ := tell_endured hsynced.sound htell
    exact (hsynced.sameView hsound hview).abandon_refused habandon

/-- An opening opens the store on the history that the directory holds, or leaves it to the next
one. -/
theorem start_refused {opened : Except Error Portable}
    (rests : Rests .frail config.path root used ops host) (unlocked : Unlocked host.view root)
    (small : used + 2 < UInt64.size)
    (run : (start config).run.Endures (Refusable root) host opened after) :
    (∃ store, opened = .ok store ∧ Live .frail config.path root (used + 1) ops store after) ∨
      (∃ e, opened = .error e) ∧ Rests .frail config.path root (used + 1) ops after ∧
        Unlocked after.view root := by
  rcases start_endured rests unlocked small legible_refusable run with ⟨store, rfl, hbegun⟩ | hrests
  · exact Or.inl ⟨store, rfl, hbegun.toLive⟩
  · exact Or.inr hrests

end OrderedStore.Portable
