import OrderedStore.Proofs.Portable.HinderedOpening

/-!
# Runs with hindered write-outs

A store is opened, changed, closed, dropped and opened again, any number of times, and any of its
write-outs may be hindered at any call. Such a run is explained by a history of the changes that
were acknowledged, and whenever the store is open its log holds what its memtable was made from.

Main definitions:

- `Portable.HinderedRun`: a run and its events.

Main statement: `Portable.log_agrees_with_memtable`.
-/

namespace OrderedStore.Portable

open Log (Operation)

variable {path : Path} {root : Location} {used : Nat} {ops : List Operation} {host after : Host}
  {machine last : Machine} {events : List Event} {event : Event} {store : Portable}

/-! ## Runs -/

/-- One event. The configuration may be another one at each opening. -/
inductive HinderedStep (path : Path) (root : Location) : Machine → Event → Machine → Prop where
  | opened {config : Config} {host after : Host} {store : Portable} :
      config.path = path → (start config).run.Endures (Opposed root) host (.ok store) after →
      HinderedStep path root ⟨host, none⟩ .opened ⟨after, some store⟩
  | unopened {config : Config} {host after : Host} {e : Error} :
      config.path = path → (start config).run.Endures (Opposed root) host (.error e) after →
      HinderedStep path root ⟨host, none⟩ (.unopened e) ⟨after, none⟩
  | changed {change : Change} {host after : Host} {store store' : Portable}
      {result : Except Error Unit} :
      store.Hindered (store.change change) host (result, store') after →
      HinderedStep path root ⟨host, some store⟩ (.changed change result) ⟨after, some store'⟩
  | found {key : Bytes} {host after : Host} {store : Portable}
      {result : Except Error (Option Bytes)} :
      (store.get key).perform host = (result, after) →
      HinderedStep path root ⟨host, some store⟩ (.found key result) ⟨after, some store⟩
  | closed {host after : Host} {store : Portable} {result : Except Error Unit} :
      store.Hindered store.close host result after →
      HinderedStep path root ⟨host, some store⟩ (.closed result) ⟨after, none⟩
  | dropped {host after : Host} {store : Portable} :
      store.Hindered store.abandon host () after →
      HinderedStep path root ⟨host, some store⟩ .dropped ⟨after, none⟩

/-- A run, with its events in order. -/
inductive HinderedRun (path : Path) (root : Location) (start : Machine) :
    List Event → Machine → Prop where
  | nil : HinderedRun path root start [] start
  | snoc {events : List Event} {event : Event} {middle last : Machine} :
      HinderedRun path root start events middle → HinderedStep path root middle event last →
      HinderedRun path root start (events ++ [event]) last

/-! ## Every run is explained -/

/-- A machine whose directory holds a history, and whose store works on it. -/
def InUse (path : Path) (root : Location) (used : Nat) (ops : List Operation) : Machine → Prop
  | ⟨host, none⟩ => Rests .frail path root used ops host ∧ Unlocked host.view root
  | ⟨host, some store⟩ => Working path root used ops store host

/-- One event moves a machine on to a history that explains it. -/
theorem HinderedStep.recorded (step : HinderedStep path root machine event last)
    (inUse : InUse path root used ops machine) (small : used + 2 < UInt64.size)
    (recorded : Recorded events ops) :
    ∃ ops', Recorded (events ++ [event]) ops' ∧ InUse path root (used + 1) ops' last := by
  cases step with
  | opened hpath run =>
    subst hpath
    rcases start_endured inUse.1 inUse.2 small legible run with ⟨_, hok, hbegun⟩ | ⟨⟨e, he⟩, _⟩
    · cases hok
      exact ⟨ops, .opened recorded, hbegun.working⟩
    · cases he
  | unopened hpath run =>
    subst hpath
    rcases start_endured inUse.1 inUse.2 small legible run with ⟨_, hok, _⟩ | ⟨_, hrests⟩
    · cases hok
    · exact ⟨ops, .unopened recorded, hrests⟩
  | changed run =>
    have hchanged := Working.change_endured inUse small run
    cases hchanged with
    | made _ hworking _ => exact ⟨_, .acknowledged recorded, hworking⟩
    | refused _ hworking => exact ⟨ops, .refused recorded, hworking⟩
  | found run =>
    rw [Live.perform_get inUse.toLive] at run
    cases run
    exact ⟨ops, .found recorded, Working.mono inUse (Nat.le_succ used)⟩
  | closed run => exact ⟨ops, .closed recorded, Working.close_endured inUse small run⟩
  | dropped run =>
    obtain ⟨hrests, hunlocked⟩ := inUse.toLive.abandon_endured rfl run
    exact ⟨ops, .dropped recorded, hrests.mono (Nat.le_succ used), hunlocked⟩

/-- Every run on an empty directory is explained by a history. -/
theorem HinderedRun.recorded {initial : Host}
    (run : HinderedRun path (initial.view.ending path) ⟨initial, none⟩ events last)
    (vacant : Vacant initial path) (home : Ready initial path ∨ .up ∉ path.steps)
    (few : events.length + 2 < UInt64.size) :
    ∃ ops, Recorded events ops ∧
      InUse path (initial.view.ending path) events.length ops last := by
  -- Every event makes room for one more table number, whether it writes a table or not.
  induction run with
  | nil => exact ⟨[], .nil, vacant.rests (home.imp_left Disk.reaches_of_kind?), vacant.unlocked⟩
  | snoc _ step ih =>
    rw [List.length_append, List.length_singleton] at few ⊢
    obtain ⟨ops, hrecorded, hinUse⟩ := ih (by omega)
    exact step.recorded hinUse (by omega) hrecorded

/-! ## A run whose write-outs fail -/

/-- Runs a script on a host that makes no new file for a table. -/
def runFull {α : Type} (script : Script α) (host : Host) : α × Host :=
  script.runAgainst (fun | .openFile _ .replace => true | _ => false)
    (.other "No space left on device") host

theorem endures_of_runFull {α : Type} {may : Host → Call → Prop} {script : Script α} {value : α}
    (imp : ∀ host path mode, may host (.openFile path mode))
    (h : runFull script host = (value, after)) : script.Endures may host value after := by
  refine Script.Endures.of_runAgainst (fun host call hrefused => ?_) h
  cases call with
  | openFile path mode => exact imp host path mode
  | _ => cases hrefused

namespace HinderedStep

theorem opened_run {config : Config} (h : (start config).run.run host = (.ok store, after)) :
    HinderedStep config.path root ⟨host, none⟩ .opened ⟨after, some store⟩ :=
  .opened rfl (.of_run h)

theorem changed_full {change : Change} {result : Except Error Unit} {store' : Portable}
    (h : runFull (store.change change) host = ((result, store'), after)) :
    HinderedStep path root ⟨host, some store⟩ (.changed change result) ⟨after, some store'⟩ :=
  .changed (endures_of_runFull (fun _ _ _ => trivial) h)

theorem closed_full {result : Except Error Unit} (h : runFull store.close host = (result, after)) :
    HinderedStep path root ⟨host, some store⟩ (.closed result) ⟨after, none⟩ :=
  .closed (endures_of_runFull (fun _ _ _ => trivial) h)

end HinderedStep

/-- A memtable that should be written out at once, but cannot be, not even when the store is closed,
until the store is opened again. -/
theorem exists_deferred :
    ∃ store host e reopened last,
      HinderedRun (.ofText "/") (Host.empty.view.ending (.ofText "/")) ⟨Host.empty, none⟩
        [.opened, .changed (.put [1] [2]) (.ok ())] ⟨host, some store⟩ ∧
      store.writeBufferSize = 0 ∧ store.memtable.isEmpty = false ∧
      HinderedRun (.ofText "/") (Host.empty.view.ending (.ofText "/")) ⟨Host.empty, none⟩
        [.opened, .changed (.put [1] [2]) (.ok ()), .closed (.error e), .opened,
          .changed (.delete [1]) (.ok ())] ⟨last, some reopened⟩ ∧
      reopened.memtable.isEmpty = false := by
  let config : Config := { path := .ofText "/", writeBufferSize := 0 }
  obtain ⟨first, opened, hopened, store, host, hmade, hsize, hempty, closed, ⟨e, hclosed⟩, second,
    again, hagain, reopened, last, hlast, hleft⟩ : ∃ first opened,
      (start config).run.run Host.empty = (.ok first, opened) ∧
      ∃ store host, runFull (first.change (.put [1] [2])) opened = ((.ok (), store), host) ∧
      store.writeBufferSize = 0 ∧ store.memtable.isEmpty = false ∧
      ∃ closed, (∃ e, runFull store.close host = (.error e, closed)) ∧
      ∃ second again, (start config).run.run closed = (.ok second, again) ∧
      ∃ reopened last, runFull (second.change (.delete [1])) again = ((.ok (), reopened), last) ∧
        reopened.memtable.isEmpty = false := by
    refine ⟨_, _, Script.eq_of_succeeded (by decide +kernel), _, _,
      Script.eq_of_done (by decide +kernel), by decide +kernel, by decide +kernel, _,
      Script.exists_of_failed (by decide +kernel), _, _,
      Script.eq_of_succeeded (by decide +kernel), _, _,
      Script.eq_of_done (by decide +kernel), by decide +kernel⟩
  have run : HinderedRun (.ofText "/") (Host.empty.view.ending (.ofText "/")) ⟨Host.empty, none⟩
      [.opened, .changed (.put [1] [2]) (.ok ())] ⟨host, some store⟩ :=
    (HinderedRun.nil.snoc (.opened_run hopened)).snoc (.changed_full hmade)
  exact ⟨store, host, e, reopened, last, run, hsize, hempty,
    ((run.snoc (.closed_full hclosed)).snoc (.opened_run hagain)).snoc (.changed_full hlast), hleft⟩

/-! ## The log and the memtable -/

/-- Whenever a store is open, its log is made of whole frames with consecutive numbers, and what
they say, in order, makes up the memtable: one is empty exactly if the other is. After a change the
memtable is empty or below its limit, unless it could not be written out. The directory is empty at
first, or missing under a path that does not go up. Tables have 64-bit numbers, and an event uses up
one of them at most. -/
theorem log_agrees_with_memtable {initial : Host} (vacant : Vacant initial path)
    (home : Ready initial path ∨ .up ∉ path.steps)
    (run : HinderedRun path (initial.view.ending path) ⟨initial, none⟩ events ⟨host, some store⟩)
    (few : events.length + 2 < UInt64.size) :
    (∃ bytes, host.view.file? (logPlace (initial.view.ending path)) =
        some (store.log.handle.id, bytes) ∧
      Agrees store bytes ∧ (bytes = [] ↔ store.memtable.isEmpty = true)) ∧
    ∀ change store' after, store.Hindered (store.change change) host (.ok (), store') after →
      change.operations ≠ [] →
      store'.memtable.isEmpty = true ∨ store'.memtable.size < store'.writeBufferSize ∨
        Deferred store change host store' after := by
  obtain ⟨ops, _, hinUse⟩ := run.recorded vacant home few
  have hworking : Working path (initial.view.ending path) events.length ops store host := hinUse
  refine ⟨⟨_, hworking.file, hworking.agrees, hworking.log_eq_nil_iff⟩, ?_⟩
  intro change store' after hchange hnonempty
  have hchanged := hworking.change_endured few hchange
  cases hchanged with
  | made _ _ hsize => exact hsize hnonempty

/-- The log and the memtable agree although the memtable could not be written out. -/
theorem log_agrees_with_memtable_deferred :
    ∃ store host, HinderedRun (.ofText "/") (Host.empty.view.ending (.ofText "/"))
        ⟨Host.empty, none⟩ [.opened, .changed (.put [1] [2]) (.ok ())] ⟨host, some store⟩ ∧
      store.writeBufferSize = 0 ∧ store.memtable.isEmpty = false ∧
      (∃ bytes, host.view.file? (logPlace (Host.empty.view.ending (.ofText "/"))) =
          some (store.log.handle.id, bytes) ∧
        Agrees store bytes ∧ (bytes = [] ↔ store.memtable.isEmpty = true)) ∧
      ∀ change store' after, store.Hindered (store.change change) host (.ok (), store') after →
        change.operations ≠ [] →
        store'.memtable.isEmpty = true ∨ store'.memtable.size < store'.writeBufferSize ∨
          Deferred store change host store' after := by
  obtain ⟨store, host, _, _, _, run, hsize, hempty, _⟩ := exists_deferred
  exact ⟨store, host, run, hsize, hempty, log_agrees_with_memtable (vacant_empty _)
    (Or.inl (by decide +kernel)) run (by decide)⟩

end OrderedStore.Portable
