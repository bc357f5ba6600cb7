import OrderedStore.Proofs.Portable.Crash

/-!
# Power losses

A power loss ends the process and cuts the log, though not below the size up to which it was forced
to disk. What is left of the log is replayed over the tables. Where the tables begin to hold what is
in the log, this may bring back a value that a later operation in a table had replaced: a new table
is forced to disk, but the log that it replaces is not.

Main definitions:

- `Portable.LosesPower`: what a power loss leaves.
- `Portable.LeftByPrefix`: a map that a first part of a history leaves.

Main statement: `Portable.prefix_after_loss_iff`.
-/

namespace OrderedStore.Portable

open Log (Operation told Fit operations)
open TableStack (Volume)

variable {conduct : Conduct} {path : Path} {root : Location} {used : Nat}
  {ops survived : List Operation} {host after : Host} {logged tabled : Nat} {volumes : List Volume}

/-! ## Losing power -/

/-- The power fails: no lock is left, and of the log what was forced to disk, and perhaps more. -/
inductive LosesPower (root : Location) (host : Host) : Host → Prop where
  | unlogged : host.view.file? (logPlace root) = none → LosesPower root host (released host)
  | cut {id size : Nat} {bytes : Bytes} :
      host.view.file? (logPlace root) = some (id, bytes) → host.view.forced id ≤ size →
      size ≤ bytes.length → LosesPower root host (released (host.answer (.resize ⟨id⟩ size)).2)

/-- The operations in the log that were forced to disk. -/
def forcedOperations (v : View) (root : Location) : List Operation :=
  match v.file? (logPlace root) with
  | none => []
  | some (id, bytes) => operations (bytes.take (v.forced id))

theorem operations_take_prefix (bytes : Bytes) (count : Nat) :
    operations (bytes.take count) <+: operations bytes :=
  (Log.records_take bytes count).map _

/-- A power loss leaves the first operations of the log, among them those that were forced. -/
theorem LosesPower.exists_cut (loss : LosesPower root host after) (sound : host.Sound) :
    ∃ middle : Host, after = released middle ∧ middle.Sound ∧
      host.view.SameBut middle.view (logPlace root) ∧
      operations (middle.view.bytesAt (logPlace root)) <+:
        operations (host.view.bytesAt (logPlace root)) ∧
      forcedOperations host.view root <+: operations (middle.view.bytesAt (logPlace root)) := by
  cases loss with
  | unlogged hnone =>
    refine ⟨host, rfl, sound, .refl _ _, List.prefix_refl _, ?_⟩
    rw [forcedOperations, hnone]
    exact List.nil_prefix
  | @cut id size bytes hfile hforced hsize =>
    have hhandle : host.view.file? (logPlace root) = some ((⟨id⟩ : Handle).id, bytes) := hfile
    obtain ⟨middle, hanswer, hsound, hview⟩ := Action.answer_resize hhandle sound hsize
    have hbytes : middle.view.bytesAt (logPlace root) = bytes.take size := by
      have hcut : middle.view.file? (logPlace root) = some (id, bytes.take size) := by
        rw [hview]
        exact View.put_file?_self ..
      exact View.bytesAt_of_file? hcut
    refine ⟨middle, by rw [hanswer], hsound, hsound.sameBut hview, ?_, ?_⟩
    · rw [hbytes, View.bytesAt_of_file? hfile]
      exact operations_take_prefix bytes size
    · have htake : bytes.take (host.view.forced id) =
          (bytes.take size).take (host.view.forced id) := by
        rw [List.take_take, Nat.min_eq_left hforced]
      simp only [forcedOperations, hfile]
      rw [hbytes, htake]
      exact operations_take_prefix _ _

/-- What is left of the log comes behind what the tables hold. -/
theorem Holding.lose (holding : Holding host.view root ops logged tabled volumes)
    (rests : Rests conduct path root used ops host) (numbers : ∀ volume ∈ volumes, volume.id ≤ used)
    (loss : LosesPower root host after) :
    ∃ survived, operations (after.view.bytesAt (logPlace root)) = survived ∧
      survived <+: ops.drop logged ∧ forcedOperations host.view root <+: survived ∧
      Consistent conduct path root used (ops.take tabled ++ survived) ⟨after, none⟩ := by
  obtain ⟨middle, rfl, hsound, hsame, hinitial, hforced⟩ := loss.exists_cut rests.sound
  rw [holding.log] at hinitial
  refine ⟨_, rfl, hinitial, hforced, Rests.released ?_⟩
  have hlength : (ops.take tabled).length = tabled := List.length_take_of_le holding.le_length
  have hfit : Fit (ops.take tabled ++ operations (middle.view.bytesAt (logPlace root))) := by
    intro operation hmem
    rcases List.mem_append.1 hmem with htable | hlog
    · exact rests.fit operation (List.mem_of_mem_take htable)
    · exact rests.fit operation (List.mem_of_mem_drop (hinitial.subset hlog))
  have hheld : Holding middle.view root
      (ops.take tabled ++ operations (middle.view.bytesAt (logPlace root))) tabled tabled
      volumes := by
    refine ⟨?_, holding.shelves.sameBut hsame (not_prefix_tablesPlace (by decide)), ?_,
      Nat.le_refl _, ?_⟩
    · rw [List.drop_left' hlength]
    · intro key
      rw [holding.tables, List.take_left' hlength]
    · rw [List.length_append, hlength]
      exact Nat.le_add_right _ _
  -- Tables and log meet now, as they do after a clean write-out.
  exact ⟨hsound, rests.homed.sameBut hsame, rests.tidy.sameBut hsame (by decide) (by decide), hfit,
    tabled, tabled, volumes, hheld, numbers, fun _ => Or.inl rfl⟩

/-! ## What is shown afterwards -/

/-- A map that a first part of a history leaves, with at least so many operations in it. -/
def LeftByPrefix (ops : List Operation) (least : Nat) (plain : Plain) : Prop :=
  ∃ count, least ≤ count ∧ count ≤ ops.length ∧ plain = Plain.after (ops.take count)

/-- Operations that only say what is so already change nothing. -/
theorem after_append_eq_iff :
    Plain.after (ops ++ survived) = Plain.after ops ↔
      ∀ key value?, told survived key = some value? → Plain.after ops key = value? := by
  have hkey : ∀ key, Plain.after (ops ++ survived) key =
      ((told survived key).or (told ops key)).join := by
    intro key
    rw [Log.after_eq_told, Log.told_append]
  constructor
  · intro heq key value? htold
    rw [← heq, hkey, htold]
    rfl
  · intro h
    funext key
    rw [hkey]
    cases htold : told survived key with
    | none => rw [Log.after_eq_told, Option.none_or]
    | some value? => exact (h key value? htold).symm

/-- A log that survives a power loss may be replayed if the tables hold nothing of it, or if it says
nothing that was replaced later on. -/
theorem leftByPrefix_iff {forced : Nat} (le : logged ≤ tabled) (le_length : tabled ≤ ops.length)
    (ends : logged = tabled ∨ tabled = ops.length) (hinitial : survived <+: ops.drop logged)
    (hforced : forced ≤ survived.length) :
    LeftByPrefix ops (max tabled (logged + forced)) (Plain.after (ops.take tabled ++ survived)) ↔
      logged = tabled ∨
        ∀ key value?, told survived key = some value? → Plain.after ops key = value? := by
  have hlength := hinitial.length_le
  rw [List.length_drop] at hlength
  rw [← after_append_eq_iff]
  constructor
  · rintro ⟨count, hleast, hcount, heq⟩
    -- A first part that holds all that is in the tables is the whole history here.
    refine ends.imp_right fun hall => ?_
    subst hall
    have hwhole : count = ops.length := by omega
    rwa [List.take_length, hwhole, List.take_length] at heq
  · intro h
    by_cases hends : logged = tabled
    · -- The history goes on with what is left of the log.
      subst hends
      refine ⟨logged + survived.length, by omega, by omega, ?_⟩
      rw [List.take_add, ← List.prefix_iff_eq_take.1 hinitial]
    · have hall := ends.resolve_left hends
      refine ⟨ops.length, by omega, Nat.le_refl _, ?_⟩
      rw [hall, List.take_length, h.resolve_left hends]

/-- What the store of a directory shows once it is opened again, on the host in memory. -/
def Reopens (path : Path) (host : Host) (plain : Plain) : Prop :=
  ∀ (config : Config) (store : Portable) (last : Host), config.path = path →
    (start config).run.run host = (.ok store, last) →
    ∀ key, (store.get key).perform last = (.ok (plain key), last)

theorem Consistent.reopens
    (consistent : Consistent .own path root used ops ⟨host, none⟩)
    (small : used + 2 < UInt64.size) :
    Reopens path host (Plain.after ops) := by
  rintro config store last rfl hrun key
  have hbegun := (ensures_start consistent.1 consistent.2 small).yields
    (Script.yields_own_iff.2 hrun)
  exact Live.perform_get hbegun.toLive key

/-! ## A log that is cut below a table -/

/-- What an event adds to the history if it is no crash. -/
def Event.operations : Event → List Operation
  | .changed change (.ok ()) => change.operations
  | _ => []

/-- Without a crash in the middle of a change there is only one history. -/
theorem Recorded.eq_flatMap {events : List Event} (recorded : Recorded events ops)
    (calm : ∀ change, .died (some change) ∉ events) :
    ops = events.flatMap Event.operations := by
  induction recorded with
  | nil => rfl
  | survived _ _ => exact absurd (List.mem_append_right _ (List.mem_singleton_self _)) (calm _)
  | _ _ ih =>
    rw [List.flatMap_append, ← ih fun change hmem => calm change (List.mem_append_left _ hmem)]
    simp [Event.operations]

/-- The host when a script is about to do a later call, if it gets there. -/
def before? {α : Type} : (count : Nat) → Script α → Host → Option Host
  | 0, .step _ _, host => some host
  | count + 1, .step call next, host =>
    before? count (next (host.answer call).1) (host.answer call).2
  | _, .done _, _ => none

theorem stops_of_before? {α : Type} {count : Nat} {script : Script α}
    (h : before? count script host = some after) : script.Stops .own host after := by
  induction count generalizing script host with
  | zero =>
    cases script with
    | done value => cases h
    | step call next =>
      cases h
      exact .during (Or.inl rfl)
  | succ count ih =>
    cases script with
    | done value => cases h
    | step call next => exact .later (Script.outcome_own host call) (ih h)

/-- A store that can be opened, and the host afterwards. -/
def opened? (config : Config) (host : Host) : Option (Portable × Host) :=
  match (start config).run.run host with
  | (.ok store, after) => some (store, after)
  | (.error _, _) => none

theorem run_of_opened? {config : Config} {opened : Portable × Host}
    (h : opened? config host = some opened) :
    (start config).run.run host = (.ok opened.1, opened.2) := by
  unfold opened? at h
  split at h
  · cases h
    assumption
  · cases h

/-- A store after a change that succeeds, and the host afterwards. -/
def changed? (change : Change) (opened : Portable × Host) : Option (Portable × Host) :=
  match (opened.1.change change).run opened.2 with
  | ((.ok (), store), after) => some (store, after)
  | ((.error _, _), _) => none

theorem run_of_changed? {change : Change} {opened changed : Portable × Host}
    (h : changed? change opened = some changed) :
    (opened.1.change change).run opened.2 = ((.ok (), changed.1), changed.2) := by
  unfold changed? at h
  split at h
  · cases h
    assumption
  · cases h

/-- Two values of one key and a value of another are logged, and the process dies while the store is
closed. -/
def trialEvents : List Event :=
  [.opened, .changed (.put [97] [49]) (.ok ()), .changed (.put [97] [50]) (.ok ()),
    .changed (.put [98] [49]) (.ok ()), .died none]

/-- What is shown of both keys if the new table was complete but the log not emptied yet, and a
power loss leaves the first record of the log only. -/
def trial? : Option (Option Bytes × Option Bytes) := do
  let opened ← opened? { path := .ofText "/" } Host.empty
  let first ← changed? (.put [97] [49]) opened
  let second ← changed? (.put [97] [50]) first
  let third ← changed? (.put [98] [49]) second
  let stopped ← before? 8 third.1.close third.2
  let file ← ((released stopped).view.file? (logPlace [])).filter fun file =>
    (released stopped).view.forced file.1 ≤ 54 ∧ 54 ≤ file.2.length
  let reopened ← opened? { path := .ofText "/" }
    (released ((released stopped).answer (.resize ⟨file.1⟩ 54)).2)
  let former ← ((reopened.1.get [97]).perform reopened.2).1.toOption
  let other ← ((reopened.1.get [98]).perform reopened.2).1.toOption
  return (former, other)

theorem trial?_eq : trial? = some (some [49], some [49]) := by decide +kernel

theorem eq_ok_of_toOption {α : Type} {result : Except Error α × Host} {value : α}
    (h : result.1.toOption = some value) : result.1 = .ok value := by
  obtain ⟨result, last⟩ := result
  cases result with
  | ok found =>
    cases h
    rfl
  | error e => cases h

theorem exists_trial :
    ∃ host after reopened, Run .own (.ofText "/") ⟨Host.empty, none⟩ trialEvents ⟨host, none⟩ ∧
      LosesPower (Host.empty.view.ending (.ofText "/")) host after ∧
      opened? { path := .ofText "/" } after = some reopened ∧
      ((reopened.1.get [97]).perform reopened.2).1 = .ok (some [49]) ∧
      ((reopened.1.get [98]).perform reopened.2).1 = .ok (some [49]) := by
  have htrial := trial?_eq
  unfold trial? at htrial
  simp only [Option.bind_eq_bind, Option.bind_eq_some_iff, Option.filter_eq_some_iff] at htrial
  obtain ⟨opened, hopened, first, hfirst, second, hsecond, third, hthird, stopped, hstopped, file,
    ⟨hfile, hsizes⟩, reopened, hreopened, former, hformer, other, hother, heq⟩ := htrial
  have hsizes := of_decide_eq_true hsizes
  cases heq
  -- The steps of the run, as they were computed.
  have hopen := Script.yields_own_iff.2 (run_of_opened? hopened)
  have hchange := Run.nil.snoc (Step.opened rfl hopen)
    |>.snoc (.changed (Script.yields_own_iff.2 (run_of_changed? hfirst)))
    |>.snoc (.changed (Script.yields_own_iff.2 (run_of_changed? hsecond)))
    |>.snoc (.changed (Script.yields_own_iff.2 (run_of_changed? hthird)))
  have run := hchange.snoc (.diedClosing (stops_of_before? hstopped))
  exact ⟨released stopped, _, reopened, run, .cut hfile hsizes.1 hsizes.2, hreopened,
    eq_ok_of_toOption hformer, eq_ok_of_toOption hother⟩

/-! ## First parts of a history -/

/-- A power loss at any point of a run. The log held the operations from a first one on, the tables
those up to another one, and what is left of the log is replayed over the tables. This is a first
part of the history, with all that is in a table and all that was forced to disk, exactly if the
tables held nothing of what the log held, or if nothing that is left of the log was replaced by a
later operation of the history. -/
theorem prefix_after_loss_iff {initial : Host} {events : List Event} (vacant : Vacant initial path)
    (home : Ready initial path ∨ .up ∉ path.steps)
    (run : Run .own path ⟨initial, none⟩ events ⟨host, none⟩)
    (few : events.length + 2 < UInt64.size)
    (loss : LosesPower (initial.view.ending path) host after) :
    ∃ ops logged tabled volumes survived, Recorded events ops ∧
      Holding host.view (initial.view.ending path) ops logged tabled volumes ∧
      operations (after.view.bytesAt (logPlace (initial.view.ending path))) = survived ∧
      survived <+: ops.drop logged ∧
      forcedOperations host.view (initial.view.ending path) <+: survived ∧
      Reopens path after (Plain.after (ops.take tabled ++ survived)) ∧
      (LeftByPrefix ops
          (max tabled (logged + (forcedOperations host.view (initial.view.ending path)).length))
          (Plain.after (ops.take tabled ++ survived)) ↔
        logged = tabled ∨
          ∀ key value?, told survived key = some value? → Plain.after ops key = value?) := by
  obtain ⟨ops, hrecorded, hconsistent⟩ := run.recorded vacant home few
  have hrests : Rests .own path (initial.view.ending path) events.length ops host := hconsistent.1
  obtain ⟨logged, tabled, volumes, hholding, hnumbers, hends⟩ := hrests.parts
  obtain ⟨survived, hshown, hinitial, hforced, hafter⟩ := hholding.lose hrests hnumbers loss
  exact ⟨ops, logged, tabled, volumes, survived, hrecorded, hholding, hshown, hinitial, hforced,
    hafter.reopens few,
    leftByPrefix_iff hholding.le hholding.le_length (hends Conduct.steady_own) hinitial
      hforced.length_le⟩

/-- The run of the trial. -/
theorem prefix_after_loss_iff_trial :
    ∃ host after, Run .own (.ofText "/") ⟨Host.empty, none⟩ trialEvents ⟨host, none⟩ ∧
      LosesPower (Host.empty.view.ending (.ofText "/")) host after ∧
      ∃ ops logged tabled volumes survived, Recorded trialEvents ops ∧
        Holding host.view (Host.empty.view.ending (.ofText "/")) ops logged tabled volumes ∧
        operations (after.view.bytesAt (logPlace (Host.empty.view.ending (.ofText "/")))) =
          survived ∧
        survived <+: ops.drop logged ∧
        forcedOperations host.view (Host.empty.view.ending (.ofText "/")) <+: survived ∧
        Reopens (.ofText "/") after (Plain.after (ops.take tabled ++ survived)) ∧
        (LeftByPrefix ops
            (max tabled (logged +
              (forcedOperations host.view (Host.empty.view.ending (.ofText "/"))).length))
            (Plain.after (ops.take tabled ++ survived)) ↔
          logged = tabled ∨
            ∀ key value?, told survived key = some value? → Plain.after ops key = value?) := by
  obtain ⟨host, after, _, run, loss, _⟩ := exists_trial
  exact ⟨host, after, run, loss, prefix_after_loss_iff (vacant_empty _)
    (Or.inl (by decide +kernel)) run (by decide) loss⟩

/-- A power loss may leave what no first part of the history leaves: the first value of a key comes
back beside the value of another key that was written later. -/
theorem not_prefix_after_loss :
    ∃ host after, Run .own (.ofText "/") ⟨Host.empty, none⟩ trialEvents ⟨host, none⟩ ∧
      LosesPower (Host.empty.view.ending (.ofText "/")) host after ∧
      ¬ ∃ ops plain, Recorded trialEvents ops ∧ Reopens (.ofText "/") after plain ∧
        LeftByPrefix ops 0 plain := by
  obtain ⟨host, after, reopened, run, loss, hreopened, hformer, hother⟩ := exists_trial
  refine ⟨host, after, run, loss, ?_⟩
  rintro ⟨ops, plain, hrecorded, hreopens, count, _, hcount, rfl⟩
  have hget := hreopens _ _ _ rfl (run_of_opened? hreopened)
  rw [hget, Except.ok.injEq] at hformer hother
  have hops := hrecorded.eq_flatMap (by simp [trialEvents])
  subst hops
  have hcases : count = 0 ∨ count = 1 ∨ count = 2 ∨ count = 3 := by
    have hle : count ≤ 3 := hcount
    omega
  -- The second key is there after the last operation only, and then the first has its later value.
  rcases hcases with rfl | rfl | rfl | rfl
  · exact absurd hother (by decide)
  · exact absurd hother (by decide)
  · exact absurd hother (by decide)
  · exact absurd hformer (by decide)

end OrderedStore.Portable
