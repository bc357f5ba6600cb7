import OrderedStore.Proofs.Portable.Opening

/-!
# Runs with crashes

A process opens the store of a directory, changes it, reads it and closes it, and may die at any
call, also half way through one; another process goes on with the files as they are. Such a run is
explained by one history: every change that was acknowledged is in it, and every change that was in
flight at a crash is in it whole or not at all.

Main definitions:

- `Portable.Run`: a run and its events.
- `Portable.Recorded`: the events of a run as a history explains them.

Main statement: `Portable.run_recorded`.
-/

namespace OrderedStore.Portable

open Log (Operation)

/-! ## Runs -/

/-- A host and the store that is open on it, if there is one. -/
structure Machine where
  host : Host
  store? : Option Portable := none

/-- What happens in a run. -/
inductive Event where
  | opened
  | unopened (e : Error)
  | changed (change : Change) (result : Except Error Unit)
  | found (key : Bytes) (result : Except Error (Option Bytes))
  | closed (result : Except Error Unit)
  /-- The store is given up without being closed. -/
  | dropped
  /-- The process dies, perhaps in the middle of a change. -/
  | died (inFlight? : Option Change)

/-- The host without the locks that ended with their process. -/
def released (host : Host) : Host :=
  { host with locked := [] }

/-- One event. The configuration may be another one at each opening. -/
inductive Step (conduct : Conduct) (path : Path) : Machine → Event → Machine → Prop where
  | opened {config : Config} {host after : Host} {store : Portable} :
      config.path = path → (start config).run.Yields conduct host (.ok store) after →
      Step conduct path ⟨host, none⟩ .opened ⟨after, some store⟩
  | unopened {config : Config} {host after : Host} {e : Error} :
      config.path = path → (start config).run.Yields conduct host (.error e) after →
      Step conduct path ⟨host, none⟩ (.unopened e) ⟨after, none⟩
  | changed {change : Change} {host after : Host} {store store' : Portable}
      {result : Except Error Unit} :
      (store.change change).Yields conduct host (result, store') after →
      Step conduct path ⟨host, some store⟩ (.changed change result) ⟨after, some store'⟩
  | found {key : Bytes} {host after : Host} {store : Portable}
      {result : Except Error (Option Bytes)} :
      (store.get key).run.Yields conduct host result after →
      Step conduct path ⟨host, some store⟩ (.found key result) ⟨after, some store⟩
  | closed {host after : Host} {store : Portable} {result : Except Error Unit} :
      store.close.Yields conduct host result after →
      Step conduct path ⟨host, some store⟩ (.closed result) ⟨after, none⟩
  | dropped {host after : Host} {store : Portable} :
      store.abandon.Yields conduct host () after →
      Step conduct path ⟨host, some store⟩ .dropped ⟨after, none⟩
  | diedOpening {config : Config} {host after : Host} :
      config.path = path → (start config).run.Stops conduct host after →
      Step conduct path ⟨host, none⟩ (.died none) ⟨released after, none⟩
  | diedChanging {change : Change} {host after : Host} {store : Portable} :
      (store.change change).Stops conduct host after →
      Step conduct path ⟨host, some store⟩ (.died (some change)) ⟨released after, none⟩
  | diedReading {key : Bytes} {host after : Host} {store : Portable} :
      (store.get key).run.Stops conduct host after →
      Step conduct path ⟨host, some store⟩ (.died none) ⟨released after, none⟩
  | diedClosing {host after : Host} {store : Portable} :
      store.close.Stops conduct host after →
      Step conduct path ⟨host, some store⟩ (.died none) ⟨released after, none⟩
  | diedDropping {host after : Host} {store : Portable} :
      store.abandon.Stops conduct host after →
      Step conduct path ⟨host, some store⟩ (.died none) ⟨released after, none⟩
  | diedIdle {host : Host} {store? : Option Portable} :
      Step conduct path ⟨host, store?⟩ (.died none) ⟨released host, none⟩

/-- A run, with its events in order. -/
inductive Run (conduct : Conduct) (path : Path) (start : Machine) :
    List Event → Machine → Prop where
  | nil : Run conduct path start [] start
  | snoc {events : List Event} {event : Event} {middle last : Machine} :
      Run conduct path start events middle → Step conduct path middle event last →
      Run conduct path start (events ++ [event]) last

/-! ## Histories -/

/-- Events that a history explains, and the history so far. Reading gives what the history has left
at that time. A change that was in flight when the process died was made or not, once and for
all. -/
inductive Recorded : List Event → List Operation → Prop where
  | nil : Recorded [] []
  | opened {events : List Event} {ops : List Operation} :
      Recorded events ops → Recorded (events ++ [.opened]) ops
  | unopened {events : List Event} {ops : List Operation} {e : Error} :
      Recorded events ops → Recorded (events ++ [.unopened e]) ops
  | acknowledged {events : List Event} {ops : List Operation} {change : Change} :
      Recorded events ops →
      Recorded (events ++ [.changed change (.ok ())]) (ops ++ change.operations)
  | refused {events : List Event} {ops : List Operation} {change : Change} {e : Error} :
      Recorded events ops → Recorded (events ++ [.changed change (.error e)]) ops
  | found {events : List Event} {ops : List Operation} {key : Bytes} :
      Recorded events ops → Recorded (events ++ [.found key (.ok (Plain.after ops key))]) ops
  | closed {events : List Event} {ops : List Operation} {result : Except Error Unit} :
      Recorded events ops → Recorded (events ++ [.closed result]) ops
  | dropped {events : List Event} {ops : List Operation} :
      Recorded events ops → Recorded (events ++ [.dropped]) ops
  | died {events : List Event} {ops : List Operation} {inFlight? : Option Change} :
      Recorded events ops → Recorded (events ++ [.died inFlight?]) ops
  | survived {events : List Event} {ops : List Operation} {change : Change} :
      Recorded events ops →
      Recorded (events ++ [.died (some change)]) (ops ++ change.operations)

/-! ## Every run is explained -/

variable {conduct : Conduct} {path : Path} {root : Location} {used : Nat} {ops : List Operation}
  {host : Host} {machine last : Machine} {events : List Event} {event : Event}

/-- A machine whose directory holds a history, and whose store is open on it. -/
def Consistent (conduct : Conduct) (path : Path) (root : Location) (used : Nat)
    (ops : List Operation) : Machine → Prop
  | ⟨host, none⟩ => Rests conduct path root used ops host ∧ Unlocked host.view root
  | ⟨host, some store⟩ => Live conduct path root used ops store host

theorem Rests.released (h : Rests conduct path root used ops host) :
    Consistent conduct path root used ops ⟨released host, none⟩ := by
  have hsound := h.sound
  have hview : (Portable.released host).view = host.view.withLocked [] := rfl
  refine ⟨h.relock ⟨hsound.disk, ?_, hsound.forced⟩ hview, ?_⟩
  · intro id hmem
    cases hmem
  · intro id bytes _ hmem
    cases hmem

/-- A store that is given up leaves the history to the next one. -/
theorem Live.ensures_drop {store : Portable} (live : Live conduct path root used ops store host) :
    store.abandon.Ensures conduct (Rests conduct path root used ops)
      (fun _ after => Rests conduct path root used ops after ∧ Unlocked after.view root) host :=
  live.ensures_abandon rfl fun _ hrests hunlocked _ => ⟨hrests, hunlocked⟩

/-- One event moves a machine on to a history that explains it. -/
theorem Step.recorded (step : Step conduct path machine event last)
    (consistent : Consistent conduct path root used ops machine) (small : used + 2 < UInt64.size)
    (recorded : Recorded events ops) :
    ∃ ops', Recorded (events ++ [event]) ops' ∧
      Consistent conduct path root (used + 1) ops' last := by
  cases step with
  | opened hpath run =>
    subst hpath
    have hbegun := (ensures_start consistent.1 consistent.2 small).yields run
    exact ⟨ops, .opened recorded, hbegun.toLive⟩
  | unopened hpath run =>
    subst hpath
    have hresult := (ensures_start consistent.1 consistent.2 small).yields run
    exact ⟨ops, .unopened recorded, hresult.2⟩
  | changed run =>
    have hresult := (ensures_change consistent small _).yields run
    rcases hresult with ⟨hok, _, hlive⟩ | ⟨_, ⟨e, herr⟩, hlive⟩
    · simp only at hok
      subst hok
      exact ⟨_, .acknowledged recorded, hlive⟩
    · simp only at herr
      subst herr
      exact ⟨ops, .refused recorded, hlive⟩
  | found run =>
    rename_i key host after store result
    have hread := (consistent.ensures_get key consistent.rests).yields run
    cases result with
    | ok found =>
      obtain ⟨rfl, rfl⟩ := hread
      exact ⟨ops, .found recorded, Live.mono consistent (Nat.le_succ used)⟩
    | error e => exact hread.elim
  | closed run =>
    have hresult := (ensures_close consistent small).yields run
    exact ⟨ops, .closed recorded, hresult.1, hresult.2.1⟩
  | dropped run =>
    have hdropped := (Live.ensures_drop consistent).yields run
    exact ⟨ops, .dropped recorded, hdropped.1.mono (Nat.le_succ used), hdropped.2⟩
  | diedOpening hpath run =>
    subst hpath
    have hrests := (ensures_start consistent.1 consistent.2 small).stops run
    exact ⟨ops, .died recorded, hrests.released⟩
  | diedChanging run =>
    -- Here it is settled whether the change was made.
    rcases (ensures_change consistent small _).stops run with hold | hnew
    · exact ⟨ops, .died recorded, hold.released⟩
    · exact ⟨_, .survived recorded, hnew.released⟩
  | diedReading run =>
    rename_i key host after store
    have hrests := (consistent.ensures_get key consistent.rests).stops run
    exact ⟨ops, .died recorded, (hrests.mono (Nat.le_succ used)).released⟩
  | diedClosing run =>
    exact ⟨ops, .died recorded, ((ensures_close consistent small).stops run).released⟩
  | diedDropping run =>
    have hrests := (Live.ensures_drop consistent).stops run
    exact ⟨ops, .died recorded, (hrests.mono (Nat.le_succ used)).released⟩
  | diedIdle =>
    rename_i host store?
    have hrests : Rests conduct path root used ops host := by
      cases store? with
      | none => exact consistent.1
      | some store => exact consistent.rests
    exact ⟨ops, .died recorded, (hrests.mono (Nat.le_succ used)).released⟩

/-- Every run on an empty directory is explained by a history. -/
theorem Run.recorded (run : Run conduct path ⟨host, none⟩ events last)
    (vacant : Vacant host path) (home : Ready host path ∨ .up ∉ path.steps)
    (few : events.length + 2 < UInt64.size) :
    ∃ ops, Recorded events ops ∧
      Consistent conduct path (host.view.ending path) events.length ops last := by
  induction run with
  | nil => exact ⟨[], .nil, vacant.rests (home.imp_left Disk.reaches_of_kind?), vacant.unlocked⟩
  | snoc _ step ih =>
    rw [List.length_append, List.length_singleton] at few ⊢
    obtain ⟨ops, hrecorded, hconsistent⟩ := ih (by omega)
    exact step.recorded hconsistent (by omega) hrecorded

/-- A run with crashes is explained by one history, and an open store shows what this history has
left. The directory is empty at first, or missing under a path that does not go up. Tables have
64-bit numbers, and an event uses up one of them at most. -/
theorem run_recorded {host : Host} (vacant : Vacant host path)
    (home : Ready host path ∨ .up ∉ path.steps) {events : List Event} {last : Machine}
    (run : Run conduct path ⟨host, none⟩ events last) (few : events.length + 2 < UInt64.size) :
    ∃ ops, Recorded events ops ∧ ∀ store, last.store? = some store → ∀ key,
      (store.get key).perform last.host = (.ok (Plain.after ops key), last.host) := by
  obtain ⟨ops, hrecorded, hconsistent⟩ := run.recorded vacant home few
  refine ⟨ops, hrecorded, ?_⟩
  obtain ⟨after, store?⟩ := last
  rintro store rfl key
  exact Live.perform_get hconsistent key

/-- The process dies when five bytes of a frame are written, and the store is opened again. -/
theorem run_recorded_torn :
    ∃ last ops,
      Run .own (.ofText "/") ⟨Host.empty, none⟩
        [.opened, .died (some (.put [1] [2])), .opened] last ∧
      Recorded [.opened, .died (some (.put [1] [2])), .opened] ops ∧
      ∀ store, last.store? = some store → ∀ key,
        (store.get key).perform last.host = (.ok (Plain.after ops key), last.host) := by
  let config : Config := { path := .ofText "/" }
  obtain ⟨store, host, hopened, torn, hdied, hreopened⟩ : ∃ store host,
      (start config).run.run Host.empty = (.ok store, host) ∧
      ∃ torn, (store.change (.put [1] [2])).Stops .own host torn ∧
        ((start config).run.run (released torn)).1.toOption.isSome = true := by
    refine ⟨_, _, Script.eq_of_succeeded (by decide +kernel), _,
      .later (Script.outcome_own _ .clock) (.during (Or.inr (Or.inr ⟨5, rfl⟩))), ?_⟩
    decide +kernel
  have hfirst : Step .own (.ofText "/") ⟨Host.empty, none⟩ .opened ⟨host, some store⟩ :=
    @Step.opened _ _ config _ _ _ rfl (Script.yields_own_iff.2 hopened)
  have hlast := @Step.opened .own _ config _ _ _ rfl
    (Script.yields_own_iff.2 (Script.eq_of_succeeded hreopened))
  have run := ((Run.nil.snoc hfirst).snoc (.diedChanging hdied)).snoc hlast
  obtain ⟨ops, h⟩ := run_recorded (vacant_empty _) (Or.inl (by decide +kernel)) run (by decide)
  exact ⟨_, ops, run, h⟩

end OrderedStore.Portable
