import OrderedStore.Proofs.Host.Hindrance

/-!
# What an action fails with

An action that asks the host fails with what a call was refused with, or with an error of its own.
Which errors these may be is read off the action, whatever its calls are answered with. That an
action never makes up a refusal is a statement about its runs: the call that was answered with it is
one of the run.

Main definitions:

- `Action.Throws`: an action that fails with errors of some kinds only.
- `Error.OfSystem`: the refusal of a call.
- `Script.Meets`: a hindered run in which some call is answered with a certain fault.
- `Action.Candid`: an action that fails with the faults that it meets only.

Main statements: `Action.Ensures.and_throws`, `Action.Candid.bind`, `Action.candid_attempt`.
-/

namespace OrderedStore

theorem Script.gives_any {α : Type} (script : Script α) :
    script.Gives (fun _ => True) fun _ => True := by
  induction script with
  | done value => trivial
  | step call next ih => exact ⟨trivial, ih⟩

/-- What a script gives in any run. -/
theorem Script.Endures.gives {α : Type} {may : Host → Call → Prop} {allowed : Call → Prop}
    {post : α → Prop} {script : Script α} {host after : Host} {value : α}
    (run : script.Endures may host value after) (gives : script.Gives allowed post) :
    post value := by
  induction run with
  | done => exact gives
  | answered _ ih => exact ih (gives.2 _)
  | refused _ _ _ ih => exact ih (gives.2 _)

theorem Script.Gives.ensures {α : Type} {conduct : Conduct} {allowed : Call → Prop}
    {post : α → Prop} {script : Script α} (gives : script.Gives allowed post) (host : Host) :
    script.Ensures conduct (fun _ => True) (fun value _ => post value) host := by
  induction script generalizing host with
  | done value => exact gives
  | step call next ih =>
    exact ⟨fun _ _ => trivial, fun reply after _ => ih reply (gives.2 reply) after⟩

/-- What is true in any run is true beside what is true of the runs that are followed. -/
theorem Script.Ensures.and_gives {α : Type} {conduct : Conduct} {stop : Host → Prop}
    {allowed : Call → Prop} {post : α → Host → Prop} {post' : α → Prop} {script : Script α}
    {host : Host} (h : script.Ensures conduct stop post host)
    (gives : script.Gives allowed post') :
    script.Ensures conduct stop (fun value after => post' value ∧ post value after) host := by
  induction script generalizing host with
  | done value => exact ⟨gives, h⟩
  | step call next ih =>
    exact ⟨h.1, fun reply after outcome => ih reply (h.2 reply after outcome) (gives.2 reply)⟩

namespace Action

variable {α β : Type} {raised : Error → Prop} {action : Action α}

/-- Whatever its calls are answered with, the action fails with errors of some kinds only. -/
def Throws (raised : Error → Prop) (action : Action α) : Prop :=
  Script.Gives (fun _ => True) (fun result => ∀ e, result = .error e → raised e) action.run

theorem throws_pure (value : α) : (pure value : Action α).Throws raised := by
  intro e h
  cases h

theorem throws_throw {e : Error} (h : raised e) : (throw e : Action α).Throws raised := by
  intro e' heq
  cases heq
  exact h

theorem Throws.bind {f : α → Action β} (h : action.Throws raised)
    (rest : ∀ value, (f value).Throws raised) : (action >>= f).Throws raised := by
  refine Script.Gives.bind h ?_
  rintro (e | value) hresult
  · exact throws_throw (hresult e rfl)
  · exact rest value

theorem throws_ofScript (script : Script α) : (ofScript script).Throws raised :=
  Script.Gives.bind script.gives_any fun value _ => throws_pure value

theorem Throws.orElseCleanup {cleanup : Script Unit} (h : action.Throws raised) :
    (action.orElseCleanup cleanup).Throws raised := by
  refine Script.Gives.bind h ?_
  rintro (e | value) hresult
  · exact cleanup.gives_any.bind fun _ _ => throws_throw (hresult e rfl)
  · exact throws_pure value

theorem throws_attempt {script : Script (Except SystemFault α)}
    (system : ∀ fault, raised (.io (.system fault))) : (attempt script).Throws raised := by
  refine Script.Gives.bind script.gives_any ?_
  rintro (fault | value) _
  · exact throws_throw (system fault)
  · exact throws_pure value

theorem ensures_any {conduct : Conduct} (action : Action α) (host : Host) :
    action.Ensures conduct (fun _ => True) (fun _ _ => True) (fun _ _ => True) host := by
  refine ((Script.gives_any action.run).ensures host).mono (fun _ h => h) ?_
  rintro (e | value) _ _ <;> trivial

/-- Where the action fails, it fails with an error of these kinds. -/
theorem Ensures.and_throws {conduct : Conduct} {stop : Host → Prop} {ok : α → Host → Prop}
    {err : Error → Host → Prop} {host : Host} (h : action.Ensures conduct stop ok err host)
    (throws : action.Throws raised) :
    action.Ensures conduct stop ok (fun e after => raised e ∧ err e after) host := by
  refine (Script.Ensures.and_gives h throws).mono (fun _ h => h) ?_
  rintro (e | value) after ⟨hthrows, hpost⟩
  · exact ⟨hthrows e rfl, hpost⟩
  · exact hpost

end Action

/-- The refusal of a call. -/
def Error.OfSystem (e : Error) : Prop :=
  ∃ fault, e = .io (.system fault)

theorem Action.throws_attempt_ofSystem {α : Type} (script : Script (Except SystemFault α)) :
    (Action.attempt script).Throws Error.OfSystem :=
  Action.throws_attempt fun fault => ⟨fault, rfl⟩

/-! ## Where a refusal comes from -/

namespace Script

variable {α β : Type} {may : Host → Call → Prop} {fault : SystemFault} {host between after : Host}

/-- A hindered run in which some call is answered with the fault, by the host or in its place. -/
inductive Meets (may : Host → Call → Prop) (fault : SystemFault) :
    Script α → Host → α → Host → Prop where
  | first {call : Call} {next : call.Reply → Script α} {reply : call.Reply} {value : α}
      {host between after : Host} :
      (Script.call call).Endures may host reply between → call.fault? reply = some fault →
      (next reply).Endures may between value after →
      Meets may fault (.step call next) host value after
  | later {call : Call} {next : call.Reply → Script α} {reply : call.Reply} {value : α}
      {host between after : Host} :
      (Script.call call).Endures may host reply between →
      (next reply).Meets may fault between value after →
      Meets may fault (.step call next) host value after

theorem Endures.of_done {given value : α} (run : (Script.done given).Endures may host value after) :
    value = given ∧ after = host := by
  cases run
  exact ⟨rfl, rfl⟩

theorem Endures.bind {script : Script α} {f : α → Script β} {middle : α} {value : β}
    (run : script.Endures may host middle between)
    (rest : (f middle).Endures may between value after) :
    (script >>= f).Endures may host value after := by
  induction run with
  | done => exact rest
  | answered _ ih => exact .answered (ih rest)
  | refused hmay hfault _ ih => exact .refused hmay hfault (ih rest)

/-- The fault is met in the first part. -/
theorem Meets.bind {script : Script α} {f : α → Script β} {middle : α} {value : β}
    (h : script.Meets may fault host middle between)
    (rest : (f middle).Endures may between value after) :
    (script >>= f).Meets may fault host value after := by
  induction h with
  | first call hfault run => exact .first call hfault (run.bind rest)
  | later call _ ih => exact .later call (ih rest)

/-- The fault is met behind the first part. -/
theorem Endures.bind_meets {script : Script α} {f : α → Script β} {middle : α} {value : β}
    (run : script.Endures may host middle between)
    (h : (f middle).Meets may fault between value after) :
    (script >>= f).Meets may fault host value after := by
  induction run with
  | done => exact h
  | answered _ ih => exact .later (.answered .done) (ih h)
  | refused hmay hfault _ ih => exact .later (.refused hmay hfault .done) (ih h)

end Script

namespace Action

variable {α β : Type} {action : Action α}

/-- Where a run of the action fails with a fault, a call of that run was answered with it. -/
structure Candid (action : Action α) : Prop where
  met : ∀ {may fault host after},
    action.run.Endures may host (.error (.io (.system fault))) after →
    action.run.Meets may fault host (.error (.io (.system fault))) after

theorem candid_pure (value : α) : (pure value : Action α).Candid where
  met run := by cases run

theorem candid_throw {e : Error} (h : ¬ e.OfSystem) : (throw e : Action α).Candid where
  met {_ fault _ _} run := by
    cases run
    exact absurd ⟨fault, rfl⟩ h

theorem Candid.bind {f : α → Action β} (h : action.Candid) (rest : ∀ value, (f value).Candid) :
    (action >>= f).Candid where
  met run := by
    rcases endures_bind run with ⟨_, he, hfirst⟩ | ⟨value, between, hfirst, hrest⟩
    · cases he
      exact (h.met hfirst).bind .done
    · exact hfirst.bind_meets ((rest value).met hrest)

/-- A call whose refusal is thrown. -/
theorem candid_attempt {call : Call} {ask : call.Reply → Except SystemFault α}
    (refusal : ∀ reply, call.fault? reply = faultOf (ask reply)) :
    (attempt (.step call fun reply => .done (ask reply))).Candid where
  met {may fault host _} run := by
    obtain ⟨result, between, hcall, hrest⟩ := Script.Endures.of_bind run
    cases result with
    | ok value => cases hrest
    | error found =>
      obtain ⟨heq, -⟩ := hrest.of_done
      cases heq
      have hmet : ∀ {reply}, ask reply = .error fault → call.fault? reply = some fault := by
        intro reply hask
        rw [refusal, hask]
        rfl
      -- The script is the call alone, so the call is the one that was answered with the fault.
      have hfirst : (Script.step call fun reply => .done (ask reply)).Meets may fault host
          (.error fault) between := by
        cases hcall with
        | answered hdone => exact .first (.answered .done) (hmet hdone.of_done.1.symm) hdone
        | refused hmay hfault hdone =>
          exact .first (.refused hmay hfault .done) (hmet hdone.of_done.1.symm) hdone
      exact hfirst.bind hrest

/-- A script that cannot fail. -/
theorem candid_ofScript (script : Script α) : (ofScript script).Candid where
  met run := by
    obtain ⟨_, _, _, hrest⟩ := Script.Endures.of_bind run
    cases hrest

/-- What is tidied up after a failure does not hide it. -/
theorem Candid.orElseCleanup {cleanup : Script Unit} (h : action.Candid) :
    (action.orElseCleanup cleanup).Candid where
  met run := by
    obtain ⟨result, between, hfirst, hrest⟩ := Script.Endures.of_bind run
    cases result with
    | ok value => cases hrest
    | error e =>
      obtain ⟨_, _, _, hdone⟩ := Script.Endures.of_bind hrest
      cases hdone
      exact (h.met hfirst).bind hrest

theorem candid_read (handle : Handle) (offset count : Nat) : (read handle offset count).Candid :=
  @candid_attempt Bytes (.read handle offset count) id fun _ => rfl

theorem candid_write (handle : Handle) (offset : Nat) (data : Bytes) :
    (write handle offset data).Candid :=
  @candid_attempt Unit (.write handle offset data) id fun _ => rfl

theorem candid_openFile (path : Path) (mode : OpenMode) : (openFile path mode).Candid :=
  @candid_attempt Handle (.openFile path mode) id fun _ => rfl

theorem candid_rename (source target : Path) : (rename source target).Candid :=
  @candid_attempt Unit (.rename source target) id fun _ => rfl

theorem candid_sync (handle : Handle) : (sync handle).Candid :=
  @candid_attempt Unit (.sync handle) id fun _ => rfl

end Action

end OrderedStore
