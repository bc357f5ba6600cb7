import OrderedStore.Proofs.Host.Conduct

/-!
# Hindered runs

A host may refuse calls of some kinds at will while it does all others. Refusals that a `Conduct`
takes into account are followed by `Script.Ensures`. Of the others it is enough to know that the
script ends where it meets one: it leaves the host as it may be found there.

Main definitions:

- `Script.Endures`: a hindered run.
- `Script.Gives`, `Script.Only`: a script that makes calls of some kinds only.
- `Script.Brittle`: a script that ends where a call is refused that no conduct refuses.
- `Action.Settles`: hindered runs of an action are taken into account, or end in its midst.

Main statements: `Script.Endures.yields`, `Action.Brittle.settles`, `Action.Settles.bind`.
-/

namespace OrderedStore

/-- Every call that may be refused at all may be refused at any time. -/
def Conduct.frail : Conduct :=
  ⟨fun _ call => call.Fallible, False, fun _ _ => id⟩

theorem Conduct.not_steady_frail : ¬ Conduct.frail.Steady :=
  fun steady => steady .empty (.list (.ofText "/")) trivial

/-- The reply that refuses a call, if it can be refused. -/
def Call.refusal? (call : Call) (fault : SystemFault) : Option call.Reply :=
  match call with
  | .probe _ | .size _ | .unlock _ | .report _ | .clock => none
  | .makeDirectories _ | .list _ | .removeFile _ | .rename _ _ | .openFile _ _ | .read _ _ _
  | .write _ _ _ | .append _ _ | .resize _ _ | .sync _ | .lock _ => some (.error fault)

theorem Call.fault?_of_refusal? {fault : SystemFault} {call : Call} {reply : call.Reply}
    (h : call.refusal? fault = some reply) : (call.fault? reply).isSome = true := by
  cases call <;> cases h <;> rfl

namespace Script

variable {α β : Type} {conduct : Conduct} {may : Host → Call → Prop}
  {allowed allowed' : Call → Prop} {failed : α → Prop} {host between after : Host}

/-- A run in which some calls may be refused at will. -/
inductive Endures (may : Host → Call → Prop) : Script α → Host → α → Host → Prop where
  | done {value : α} {host : Host} : Endures may (.done value) host value host
  | answered {call : Call} {next : call.Reply → Script α} {value : α} {host after : Host} :
      Endures may (next (host.answer call).1) (host.answer call).2 value after →
      Endures may (.step call next) host value after
  | refused {call : Call} {next : call.Reply → Script α} {reply : call.Reply} {value : α}
      {host after : Host} :
      may host call → (call.fault? reply).isSome → Endures may (next reply) host value after →
      Endures may (.step call next) host value after

/-- The parts of a run. -/
theorem Endures.of_bind {script : Script α} {f : α → Script β} {value : β}
    (run : (script >>= f).Endures may host value after) :
    ∃ middle between, script.Endures may host middle between ∧
      (f middle).Endures may between value after := by
  induction script generalizing host with
  | done middle => exact ⟨middle, host, .done, run⟩
  | step call next ih =>
    rw [bind_step] at run
    cases run with
    | answered run =>
      obtain ⟨middle, between, hfirst, hrest⟩ := ih _ run
      exact ⟨middle, between, .answered hfirst, hrest⟩
    | refused hmay hfault run =>
      obtain ⟨middle, between, hfirst, hrest⟩ := ih _ run
      exact ⟨middle, between, .refused hmay hfault hfirst, hrest⟩

theorem Endures.mono {may' : Host → Call → Prop} {script : Script α} {value : α}
    (run : script.Endures may host value after)
    (imp : ∀ host call, may host call → may' host call) :
    script.Endures may' host value after := by
  induction run with
  | done => exact .done
  | answered _ ih => exact .answered ih
  | refused hmay hfault _ ih => exact .refused (imp _ _ hmay) hfault ih

/-- A call is answered, or it is refused and leaves the host as it is. -/
theorem Endures.of_call {call : Call} {reply : call.Reply}
    (run : (Script.call call).Endures may host reply after) :
    host.answer call = (reply, after) ∨
      may host call ∧ (call.fault? reply).isSome ∧ after = host := by
  cases run with
  | answered run =>
    cases run
    exact Or.inl rfl
  | refused hmay hfault run =>
    cases run
    exact Or.inr ⟨hmay, hfault, rfl⟩

/-- A run that is not hindered. -/
theorem Endures.of_run {script : Script α} {value : α} (h : script.run host = (value, after)) :
    script.Endures may host value after := by
  induction script generalizing host with
  | done value =>
    cases h
    exact .done
  | step call next ih => exact .answered (ih _ h)

/-! ## Hindered runs as functions -/

/-- Runs a script on a host in memory that refuses certain calls. -/
def runAgainst (refused : Call → Bool) (fault : SystemFault) : Script α → Host → α × Host
  | .done value, host => (value, host)
  | .step call next, host =>
    match if refused call then call.refusal? fault else none with
    | some reply => (next reply).runAgainst refused fault host
    | none =>
      let (reply, host) := host.answer call
      (next reply).runAgainst refused fault host

theorem Endures.of_runAgainst {refused : Call → Bool} {fault : SystemFault} {script : Script α}
    {value : α} (imp : ∀ host call, refused call = true → may host call)
    (h : script.runAgainst refused fault host = (value, after)) :
    script.Endures may host value after := by
  induction script generalizing host with
  | done value =>
    cases h
    exact .done
  | step call next ih =>
    unfold runAgainst at h
    split at h
    · rename_i reply hreply
      split at hreply
      · rename_i hrefused
        exact .refused (imp host call hrefused) (Call.fault?_of_refusal? hreply) (ih _ h)
      · cases hreply
    · exact .answered (ih _ h)

/-! ## Runs in parts -/

theorem Yields.bind {script : Script α} {f : α → Script β} {middle : α} {value : β}
    (run : script.Yields conduct host middle between)
    (rest : (f middle).Yields conduct between value after) :
    (script >>= f).Yields conduct host value after := by
  induction run with
  | done => exact rest
  | step outcome _ ih => exact .step outcome (ih rest)

/-- The process dies in the first part. -/
theorem Stops.bind {script : Script α} {f : α → Script β} (died : script.Stops conduct host after) :
    (script >>= f).Stops conduct host after := by
  induction died with
  | during torn => exact .during torn
  | later outcome _ ih => exact .later outcome ih

/-- The process dies behind the first part. -/
theorem Yields.bind_stops {script : Script α} {f : α → Script β} {middle : α}
    (run : script.Yields conduct host middle between)
    (died : (f middle).Stops conduct between after) :
    (script >>= f).Stops conduct host after := by
  induction run with
  | done => exact died
  | step outcome _ ih => exact .later outcome (ih died)

/-! ## Kinds of calls -/

/-- Whatever its calls are answered with, the script makes calls of some kinds only, and gives a
value of a certain kind. -/
def Gives (allowed : Call → Prop) (post : α → Prop) : Script α → Prop
  | .done value => post value
  | .step call next => allowed call ∧ ∀ reply, (next reply).Gives allowed post

/-- The script makes calls of some kinds only. -/
def Only (allowed : Call → Prop) (script : Script α) : Prop :=
  script.Gives allowed fun _ => True

theorem only_call {call : Call} (h : allowed call) : (Script.call call).Only allowed :=
  ⟨h, fun _ => trivial⟩

theorem Gives.mono {script : Script α} {post post' : α → Prop} (h : script.Gives allowed post)
    (imp : ∀ call, allowed call → allowed' call) (weaker : ∀ value, post value → post' value) :
    script.Gives allowed' post' := by
  induction script with
  | done value => exact weaker value h
  | step call next ih => exact ⟨imp call h.1, fun reply => ih reply (h.2 reply)⟩

theorem Only.mono {script : Script α} (h : script.Only allowed)
    (imp : ∀ call, allowed call → allowed' call) : script.Only allowed' :=
  Gives.mono h imp fun _ => id

theorem Gives.bind {script : Script α} {f : α → Script β} {middle : α → Prop} {post : β → Prop}
    (h : script.Gives allowed middle)
    (rest : ∀ value, middle value → (f value).Gives allowed post) :
    (script >>= f).Gives allowed post := by
  induction script with
  | done value => exact rest value h
  | step call next ih => exact ⟨h.1, fun reply => ih reply (h.2 reply)⟩

theorem Only.bind {script : Script α} {f : α → Script β} (h : script.Only allowed)
    (rest : ∀ value, (f value).Only allowed) : (script >>= f).Only allowed :=
  Gives.bind h fun value _ => rest value

/-- A hindered run is taken into account where a conduct refuses what may and can be refused. -/
theorem Endures.yields_of_foreseen {script : Script α} {value : α}
    (run : script.Endures may host value after) (unroomy : ¬ conduct.roomy)
    (only : script.Only fun call => ∀ host reply, may host call → (call.fault? reply).isSome →
      conduct.refuses host call) :
    script.Yields conduct host value after := by
  induction run with
  | done => exact .done
  | answered _ ih => exact .step (Or.inl ⟨rfl, fun h => absurd h unroomy⟩) (ih (only.2 _))
  | refused hmay hfault _ ih =>
    exact .step (Or.inr ⟨only.1 _ _ hmay hfault, hfault, rfl⟩) (ih (only.2 _))

/-- A hindered run is taken into account where a conduct refuses what may be refused. -/
theorem Endures.yields {script : Script α} {value : α}
    (run : script.Endures may host value after) (unroomy : ¬ conduct.roomy)
    (only : script.Only fun call => ∀ host, may host call → conduct.refuses host call) :
    script.Yields conduct host value after :=
  run.yields_of_foreseen unroomy (only.mono fun _ h host _ hmay _ => h host hmay)

/-- Calls that leave the host as it is, and may not be refused there, are not hindered. -/
theorem Endures.yields_of_kept {script : Script α} {value : α}
    (run : script.Endures may host value after) (unroomy : ¬ conduct.roomy)
    (only : script.Only fun call => (host.answer call).2 = host ∧ ¬ may host call) :
    script.Yields conduct host value after := by
  induction run with
  | done => exact .done
  | @answered call _ _ host _ _ ih =>
    -- What may be refused hangs on the host, which the call leaves as it is.
    obtain ⟨⟨hkept, _⟩, honly⟩ := only
    have hanswer : host.answer call = ((host.answer call).1, host) := Prod.ext rfl hkept
    rw [hkept] at ih
    exact .step (Or.inl ⟨hanswer, fun h => absurd h unroomy⟩) (ih (honly _))
  | refused hmay _ _ _ => exact absurd hmay only.1.2

/-! ## Scripts that end where they are hindered -/

/-- Where a call is refused that no conduct refuses, the script ends and gives a value of a certain
kind. -/
def Brittle (failed : α → Prop) : Script α → Prop
  | .done _ => True
  | .step call next =>
    (∀ reply, (next reply).Brittle failed) ∧
      (¬ call.Fallible → ∀ reply, (call.fault? reply).isSome →
        ∃ value, next reply = .done value ∧ failed value)

/-- Calls that no one refuses, and calls that every conduct takes into account. -/
theorem brittle_of_only {script : Script α}
    (only : script.Only fun call => call.Fallible ∨ ∀ reply, call.fault? reply = none) :
    script.Brittle failed := by
  induction script with
  | done value => trivial
  | step call next ih =>
    refine ⟨fun reply => ih reply (only.2 reply), fun hsure reply hfault => ?_⟩
    rcases only.1 with hfallible | hnone
    · exact absurd hfallible hsure
    · rw [hnone] at hfault
      cases hfault

theorem Brittle.bind {failed' : β → Prop} {script : Script α} {f : α → Script β}
    (h : script.Brittle failed)
    (ends : ∀ value, failed value → ∃ value', f value = .done value' ∧ failed' value')
    (rest : ∀ value, (f value).Brittle failed') : (script >>= f).Brittle failed' := by
  -- Where the first part is refused a call, `ends` leaves nothing of the second part to do.
  induction script with
  | done value => exact rest value
  | step call next ih =>
    refine ⟨fun reply => ih reply (h.1 reply), ?_⟩
    intro hsure reply hfault
    obtain ⟨value, hnext, hfailed⟩ := h.2 hsure reply hfault
    obtain ⟨value', hvalue, hfailed'⟩ := ends value hfailed
    refine ⟨value', ?_, hfailed'⟩
    change next reply >>= f = .done value'
    rw [hnext, bind_done, hvalue]

/-- A hindered run of such a script is taken into account by the conduct `Conduct.frail`, or ends
where that conduct takes a stop into account. -/
theorem Endures.yields_or_stops {script : Script α} {value : α}
    (run : script.Endures may host value after) (brittle : script.Brittle failed) :
    script.Yields .frail host value after ∨ failed value ∧ script.Stops .frail host after := by
  induction run with
  | done => exact Or.inl .done
  | @answered call next value host after _ ih =>
    have outcome : Conduct.frail.Outcome host call (host.answer call).1 (host.answer call).2 :=
      Or.inl ⟨rfl, False.elim⟩
    exact (ih (brittle.1 _)).imp (.step outcome) fun h => ⟨h.1, .later outcome h.2⟩
  | @refused call next reply value host after hmay hfault run ih =>
    -- The conduct refuses what can fail. After any other refusal the script has no calls left, so
    -- the host stays as it is, as if the process had died before the call.
    by_cases hfallible : call.Fallible
    · have outcome : Conduct.frail.Outcome host call reply host :=
        Or.inr ⟨hfallible, hfault, rfl⟩
      exact (ih (brittle.1 _)).imp (.step outcome) fun h => ⟨h.1, .later outcome h.2⟩
    · obtain ⟨given, hnext, hfailed⟩ := brittle.2 hfallible reply hfault
      rw [hnext] at run
      cases run
      exact Or.inr ⟨hfailed, .during (Or.inl rfl)⟩

end Script

namespace Action

variable {α β : Type} {may : Host → Call → Prop} {allowed : Call → Prop} {host after : Host}

/-- The calls of an action are of some kinds only. -/
def Only (allowed : Call → Prop) (action : Action α) : Prop :=
  Script.Only allowed action.run

theorem only_pure (value : α) : (pure value : Action α).Only allowed :=
  trivial

theorem only_throw (e : Error) : (throw e : Action α).Only allowed :=
  trivial

theorem Only.bind {action : Action α} {f : α → Action β} (h : action.Only allowed)
    (rest : ∀ value, (f value).Only allowed) : (action >>= f).Only allowed := by
  refine Script.Only.bind h ?_
  rintro (e | value)
  · trivial
  · exact rest value

theorem only_attempt {script : Script (Except SystemFault α)} (h : script.Only allowed) :
    (attempt script).Only allowed := by
  refine Script.Only.bind h ?_
  rintro (fault | value)
  · trivial
  · trivial

theorem only_ofScript {script : Script α} (h : script.Only allowed) :
    (ofScript script).Only allowed :=
  Script.Only.bind h fun _ => trivial

theorem Only.orElseCleanup {action : Action α} {cleanup : Script Unit} (h : action.Only allowed)
    (undone : cleanup.Only allowed) : (action.orElseCleanup cleanup).Only allowed := by
  refine Script.Only.bind h ?_
  rintro (e | value)
  · exact undone.bind fun _ => trivial
  · trivial

theorem only_read {handle : Handle} {offset count : Nat}
    (h : allowed (.read handle offset count)) : (read handle offset count).Only allowed :=
  only_attempt (Script.only_call h)

/-! ## Actions that fail where they are hindered -/

/-- A result that is no success. -/
def Failed (result : Except Error α) : Prop :=
  ∃ e, result = .error e

/-- Where a call is refused that no conduct refuses, the action fails. -/
def Brittle (action : Action α) : Prop :=
  Script.Brittle Failed action.run

theorem brittle_pure (value : α) : (pure value : Action α).Brittle :=
  trivial

theorem brittle_throw (e : Error) : (throw e : Action α).Brittle :=
  trivial

theorem brittle_of_only {action : Action α}
    (only : action.Only fun call => call.Fallible ∨ ∀ reply, call.fault? reply = none) :
    action.Brittle :=
  Script.brittle_of_only only

theorem Brittle.bind {action : Action α} {f : α → Action β} (h : action.Brittle)
    (rest : ∀ value, (f value).Brittle) : (action >>= f).Brittle := by
  refine Script.Brittle.bind h ?_ ?_
  · rintro _ ⟨e, rfl⟩
    exact ⟨.error e, rfl, e, rfl⟩
  · rintro (e | value)
    · trivial
    · exact rest value

theorem run_ofScript_bind (script : Script α) (f : α → Action β) :
    (ofScript script >>= f).run = script >>= fun value => (f value).run := by
  change (script >>= fun value => Script.done (Except.ok value)) >>= _ = _
  rw [Script.bind_assoc]
  rfl

/-- A script whose failures are thrown. -/
theorem brittle_ofScript_bind {failed : α → Prop} {script : Script α} {f : α → Action β}
    (h : script.Brittle failed) (throws : ∀ value, failed value → ∃ e, f value = throw e)
    (rest : ∀ value, (f value).Brittle) : (ofScript script >>= f).Brittle := by
  rw [Brittle, run_ofScript_bind]
  refine h.bind ?_ rest
  intro value hfailed
  obtain ⟨e, he⟩ := throws value hfailed
  exact ⟨.error e, by rw [he]; rfl, e, rfl⟩

theorem brittle_of_fallible {ask : Script (Except SystemFault α)}
    (only : ask.Only Call.Fallible) : (attempt ask).Brittle :=
  brittle_of_only (only_attempt (only.mono fun _ => Or.inl))

theorem brittle_attempt {call : Call} {ask : call.Reply → Except SystemFault α}
    (refusal : ∀ reply, call.fault? reply = faultOf (ask reply)) :
    (attempt (.step call fun reply => .done (ask reply))).Brittle := by
  refine ⟨?_, ?_⟩
  · intro reply
    change (attempt (.done (ask reply))).Brittle
    cases ask reply with
    | ok value => trivial
    | error fault => trivial
  · intro _ reply hfault
    rw [refusal] at hfault
    change ∃ value, (attempt (.done (ask reply))).run = .done value ∧ Failed value
    cases hask : ask reply with
    | ok value =>
      rw [hask] at hfault
      cases hfault
    | error fault => exact ⟨_, rfl, _, rfl⟩

theorem brittle_read (handle : Handle) (offset count : Nat) :
    (read handle offset count).Brittle :=
  @brittle_attempt Bytes (.read handle offset count) id fun _ => rfl

theorem brittle_sync (handle : Handle) : (sync handle).Brittle :=
  @brittle_attempt Unit (.sync handle) id fun _ => rfl

theorem brittle_probe (path : Path) : (probe path).Brittle :=
  brittle_of_only (only_ofScript (Script.only_call (Or.inr fun _ => rfl)))

theorem brittle_makeDirectories (path : Path) : (makeDirectories path).Brittle :=
  brittle_of_fallible (Script.only_call trivial)

theorem brittle_list (path : Path) : (list path).Brittle :=
  brittle_of_fallible (Script.only_call trivial)

theorem brittle_removeFile (path : Path) : (removeFile path).Brittle :=
  brittle_of_fallible (Script.only_call trivial)

theorem brittle_rename (source target : Path) : (rename source target).Brittle :=
  brittle_of_fallible (Script.only_call trivial)

theorem brittle_openFile (path : Path) (mode : OpenMode) : (openFile path mode).Brittle :=
  brittle_of_fallible (Script.only_call trivial)

theorem brittle_resize (handle : Handle) (size : Nat) : (resize handle size).Brittle :=
  brittle_of_fallible (Script.only_call trivial)

theorem brittle_size (handle : Handle) : (size handle).Brittle :=
  brittle_of_only (only_ofScript (Script.only_call (Or.inr fun _ => rfl)))

/-! ## What hindered runs lead to -/

/-- A hindered run is taken into account by the conduct `Conduct.frail`, or fails where that conduct
takes a stop into account. -/
def Settles (may : Host → Call → Prop) (action : Action α) (host : Host) : Prop :=
  ∀ result after, action.run.Endures may host result after →
    action.run.Yields .frail host result after ∨
      Failed result ∧ action.run.Stops .frail host after

theorem Brittle.settles {action : Action α} (h : action.Brittle) (host : Host) :
    action.Settles may host :=
  fun _ _ run => run.yields_or_stops h

/-- The parts of a run: the first fails, or the second goes on. -/
theorem endures_bind {action : Action α} {f : α → Action β} {result : Except Error β}
    (run : (action >>= f).run.Endures may host result after) :
    (∃ e, result = .error e ∧ action.run.Endures may host (.error e) after) ∨
      ∃ value between, action.run.Endures may host (.ok value) between ∧
        (f value).run.Endures may between result after := by
  obtain ⟨middle, between, hfirst, hrest⟩ := Script.Endures.of_bind run
  cases middle with
  | error e =>
    cases hrest
    exact Or.inl ⟨e, rfl, hfirst⟩
  | ok value => exact Or.inr ⟨value, between, hfirst, hrest⟩

/-- A script that cannot fail comes to its end before the rest goes on. -/
theorem endures_ofScript_bind {script : Script α} {f : α → Action β} {result : Except Error β}
    (run : (ofScript script >>= f).run.Endures may host result after) :
    ∃ value between, script.Endures may host value between ∧
      (f value).run.Endures may between result after := by
  rw [run_ofScript_bind] at run
  exact run.of_bind

theorem Settles.bind {action : Action α} {f : α → Action β} (h : action.Settles may host)
    (rest : ∀ value between, action.run.Yields .frail host (.ok value) between →
      (f value).Settles may between) : (action >>= f).Settles may host := by
  intro result after run
  rcases endures_bind run with ⟨e, rfl, hfirst⟩ | ⟨value, between, hfirst, hrest⟩
  · rcases h _ _ hfirst with hyields | ⟨_, hstops⟩
    · exact Or.inl (hyields.bind .done)
    · exact Or.inr ⟨⟨e, rfl⟩, hstops.bind⟩
  · rcases h _ _ hfirst with hyields | ⟨⟨e, he⟩, _⟩
    · rcases rest value between hyields _ _ hrest with hlast | ⟨hfailed, hstops⟩
      · exact Or.inl (hyields.bind hlast)
      · exact Or.inr ⟨hfailed, hyields.bind_stops hstops⟩
    · cases he

end Action

end OrderedStore
