import OrderedStore.Host.Memory

/-!
# What a host may do with a script

A script fixes its calls, and the host decides what becomes of them: it may refuse some, and the
process may die at any call, also half way through one. A `Conduct` says which refusals are taken
into account, and `Script.Ensures` follows all of them:

- `stop` holds wherever the process may die;
- `post` holds of the value and the host at the end.

Runs are told by `Script.Yields` and, where the process dies, by `Script.Stops`. The runs of the
host in memory are those of the conduct `Conduct.own` (`Script.yields_own_iff`).
-/

namespace OrderedStore

/-! ## Refusals -/

/-- The fault of a reply, if it has one. -/
def faultOf {α : Type} : Except SystemFault α → Option SystemFault
  | .ok _ => none
  | .error fault => some fault

/-- What a reply refuses its call for, if it does. -/
def Call.fault? : (call : Call) → call.Reply → Option SystemFault
  | .probe _, _ | .size _, _ | .unlock _, _ | .report _, _ | .clock, _ => none
  | .makeDirectories _, reply => faultOf (α := Unit) reply
  | .list _, reply => faultOf (α := List (String × FileKind)) reply
  | .removeFile _, reply => faultOf (α := Unit) reply
  | .rename _ _, reply => faultOf (α := Unit) reply
  | .openFile _ _, reply => faultOf (α := Handle) reply
  | .read _ _ _, reply => faultOf (α := Bytes) reply
  | .write _ _ _, reply => faultOf (α := Unit) reply
  | .append _ _, reply => faultOf (α := Unit) reply
  | .resize _ _, reply => faultOf (α := Unit) reply
  | .sync _, reply => faultOf (α := Unit) reply
  | .lock _, reply => faultOf (α := Unit) reply

/-- Whether a call is refused because a file or a path would be too long. -/
def SystemFault.IsShortage (fault : SystemFault) : Prop :=
  fault = .fileTooLarge ∨ fault = .nameTooLong

/-- The calls that a host may refuse without a reason of its own. What is there can be read and
forced to disk. -/
def Call.Fallible : Call → Prop
  | .makeDirectories _ | .list _ | .removeFile _ | .rename _ _ | .openFile _ _ | .write _ _ _
  | .append _ _ | .resize _ _ => True
  | .probe _ | .size _ | .read _ _ _ | .sync _ | .lock _ | .unlock _ | .report _ | .clock => False

/-- Which refusals are taken into account. -/
structure Conduct where
  /-- The calls that may be refused although they could be done. -/
  refuses : Host → Call → Prop
  /-- Whether runs that lack room for a file or a path are left out. -/
  roomy : Prop
  fallible : ∀ host call, refuses host call → call.Fallible

namespace Conduct

/-- Every call is done as the host in memory does it. -/
def own : Conduct :=
  ⟨fun _ _ => False, False, fun _ _ => False.elim⟩

/-- Every call is done as the host in memory does it, and no call lacks room. -/
def ample : Conduct :=
  ⟨fun _ _ => False, True, fun _ _ => False.elim⟩

/-- Whether some call may fail though the script did nothing wrong. -/
def Excuse (conduct : Conduct) : Prop :=
  ¬ conduct.roomy ∨ ∃ host call, conduct.refuses host call

/-- Whether calls fail only for a reason. -/
def Steady (conduct : Conduct) : Prop :=
  ∀ host call, ¬ conduct.refuses host call

/-- What may become of a call. -/
def Outcome (conduct : Conduct) (host : Host) (call : Call) (reply : call.Reply) (after : Host) :
    Prop :=
  (host.answer call = (reply, after) ∧
      (conduct.roomy → ∀ fault, call.fault? reply = some fault → ¬ fault.IsShortage)) ∨
    (conduct.refuses host call ∧ (call.fault? reply).isSome ∧ after = host)

theorem not_excuse_ample : ¬ ample.Excuse := by
  rintro (h | ⟨host, call, h⟩)
  · exact h trivial
  · exact h

theorem steady_own : own.Steady :=
  fun _ _ => id

theorem steady_ample : ample.Steady :=
  fun _ _ => id

/-- A call that cannot fail is answered. -/
theorem Outcome.eq_answer {conduct : Conduct} {host after : Host} {call : Call}
    {reply : call.Reply} (h : conduct.Outcome host call reply after) (sure : ¬ call.Fallible) :
    host.answer call = (reply, after) := by
  rcases h with ⟨h, _⟩ | ⟨h, _⟩
  · exact h
  · exact absurd (conduct.fallible _ _ h) sure

theorem excuse_of_not_steady {conduct : Conduct} (h : ¬ conduct.Steady) : conduct.Excuse := by
  refine Or.inr (Classical.byContradiction fun hnone => ?_)
  exact h fun host call refused => hnone ⟨host, call, refused⟩

/-- A refusal has an excuse, unless the host in memory answers with a fault that is no shortage. -/
theorem Outcome.settle {conduct : Conduct} {host after : Host} {call : Call} {reply : call.Reply}
    (h : conduct.Outcome host call reply after) :
    (¬ conduct.Steady ∧ (call.fault? reply).isSome ∧ after = host) ∨
    (host.answer call = (reply, after) ∧
      ∀ fault, call.fault? reply = some fault → fault.IsShortage → conduct.Excuse) := by
  rcases h with ⟨answer, room⟩ | ⟨refused, isSome, same⟩
  · refine Or.inr ⟨answer, ?_⟩
    -- A shortage is an answer of the host in memory only where runs may lack room.
    intro fault hfault shortage
    exact Or.inl fun roomy => room roomy fault hfault shortage
  · exact Or.inl ⟨fun steady => steady host call refused, isSome, same⟩

end Conduct

/-- The states in which a call may leave the host if the process dies in it. -/
def Host.Torn (host : Host) (call : Call) (after : Host) : Prop :=
  after = host ∨ after = (host.answer call).2 ∨
    match call with
    | .append handle data => ∃ count, after = (host.answer (.append handle (data.take count))).2
    | .write handle offset data =>
      ∃ count, after = (host.answer (.write handle offset (data.take count))).2
    | .makeDirectories path =>
      ∃ count, after = { host with disk := (host.disk.makeLineage (path.lineage.drop count)).2 }
    | _ => False

/-! ## Following a script -/

namespace Script

variable {α β : Type} {conduct : Conduct} {stop : Host → Prop}

/-- Whatever becomes of its calls, the script keeps to `stop` on the way and to `post` at the
end. -/
def Ensures (conduct : Conduct) (stop : Host → Prop) :
    Script α → (α → Host → Prop) → Host → Prop
  | .done value, post, host => post value host
  | .step call next, post, host =>
    (∀ after, host.Torn call after → stop after) ∧
      ∀ reply after, conduct.Outcome host call reply after →
        (next reply).Ensures conduct stop post after

@[simp]
theorem ensures_done_iff {value : α} {post : α → Host → Prop} {host : Host} :
    (Script.done value).Ensures conduct stop post host ↔ post value host :=
  Iff.rfl

theorem ensures_call {c : Call} {post : c.Reply → Host → Prop} {host : Host}
    (hstop : ∀ after, host.Torn c after → stop after)
    (hpost : ∀ reply after, conduct.Outcome host c reply after → post reply after) :
    (Script.call c).Ensures conduct stop post host :=
  ⟨hstop, hpost⟩

theorem Ensures.mono {script : Script α} {weaker : Host → Prop} {post post' : α → Host → Prop}
    {host : Host} (h : script.Ensures conduct stop post host)
    (hstop : ∀ host, stop host → weaker host)
    (hpost : ∀ value host, post value host → post' value host) :
    script.Ensures conduct weaker post' host := by
  induction script generalizing host with
  | done value => exact hpost _ _ h
  | step call next ih =>
    refine ⟨?_, ?_⟩
    · intro after torn
      exact hstop _ (h.1 after torn)
    · intro reply after outcome
      exact ih reply (h.2 reply after outcome)

theorem Ensures.bind {script : Script α} {f : α → Script β} {post : β → Host → Prop}
    {host : Host}
    (h : script.Ensures conduct stop (fun value => (f value).Ensures conduct stop post) host) :
    (script >>= f).Ensures conduct stop post host := by
  induction script generalizing host with
  | done value => exact h
  | step call next ih =>
    rw [bind_step]
    refine ⟨h.1, ?_⟩
    intro reply after outcome
    exact ih reply (h.2 reply after outcome)

theorem Ensures.bind_of {script : Script α} {f : α → Script β} {middle : α → Host → Prop}
    {post : β → Host → Prop} {host : Host} (h : script.Ensures conduct stop middle host)
    (rest : ∀ value host, middle value host → (f value).Ensures conduct stop post host) :
    (script >>= f).Ensures conduct stop post host :=
  Ensures.bind (h.mono (fun _ => id) rest)

/-! ## Runs of the host in memory -/

theorem outcome_own (host : Host) (call : Call) :
    Conduct.own.Outcome host call (host.answer call).1 (host.answer call).2 :=
  Or.inl ⟨rfl, fun h => h.elim⟩

theorem Ensures.run {script : Script α} {post : α → Host → Prop} {host : Host}
    (h : script.Ensures .own stop post host) :
    post (script.run host).1 (script.run host).2 := by
  induction script generalizing host with
  | done value => exact h
  | step call next ih => exact ih _ (h.2 _ _ (outcome_own host call))

/-- A run of the script that gives a value and leaves the host in some state. -/
inductive Yields (conduct : Conduct) : Script α → Host → α → Host → Prop where
  | done {value : α} {host : Host} : Yields conduct (.done value) host value host
  | step {call : Call} {next : call.Reply → Script α} {reply : call.Reply} {value : α}
      {host middle after : Host} :
      conduct.Outcome host call reply middle → Yields conduct (next reply) middle value after →
      Yields conduct (.step call next) host value after

/-- A run of the script in which the process dies and leaves the host in some state. -/
inductive Stops (conduct : Conduct) : Script α → Host → Host → Prop where
  | during {call : Call} {next : call.Reply → Script α} {host after : Host} :
      host.Torn call after → Stops conduct (.step call next) host after
  | later {call : Call} {next : call.Reply → Script α} {reply : call.Reply}
      {host middle after : Host} :
      conduct.Outcome host call reply middle → Stops conduct (next reply) middle after →
      Stops conduct (.step call next) host after

theorem Ensures.yields {script : Script α} {post : α → Host → Prop} {host after : Host} {value : α}
    (h : script.Ensures conduct stop post host) (run : script.Yields conduct host value after) :
    post value after := by
  induction run with
  | done => exact h
  | step outcome _ ih => exact ih (h.2 _ _ outcome)

theorem Ensures.stops {script : Script α} {post : α → Host → Prop} {host after : Host}
    (h : script.Ensures conduct stop post host) (died : script.Stops conduct host after) :
    stop after := by
  induction died with
  | during torn => exact h.1 _ torn
  | later outcome _ ih => exact ih (h.2 _ _ outcome)

/-- The runs that the conduct `Conduct.own` takes into account are those of the host in memory. -/
theorem yields_own_iff {script : Script α} {host after : Host} {value : α} :
    script.Yields .own host value after ↔ script.run host = (value, after) := by
  constructor
  · intro run
    induction run with
    | done => rfl
    | step outcome _ ih =>
      rcases outcome with ⟨answer, _⟩ | ⟨refused, _⟩
      · rw [← ih]
        simp only [Script.run, answer]
      -- `Conduct.own` refuses nothing.
      · exact refused.elim
  · intro run
    induction script generalizing host with
    | done value =>
      cases run
      exact .done
    | step call next ih => exact .step (outcome_own host call) (ih _ run)

/-- No call of the run lacks room for a file or for a path. -/
def FindsRoom : Script α → Host → Prop
  | .done _, _ => True
  | .step call next, host =>
    (∀ fault, call.fault? (host.answer call).1 = some fault → ¬ fault.IsShortage) ∧
      (next (host.answer call).1).FindsRoom (host.answer call).2

instance (fault : SystemFault) : Decidable fault.IsShortage :=
  inferInstanceAs (Decidable (_ ∨ _))

instance decidableFindsRoom :
    (script : Script α) → (host : Host) → Decidable (script.FindsRoom host)
  | .done _, _ => isTrue trivial
  | .step call next, host =>
    have := decidableFindsRoom (next (host.answer call).1) (host.answer call).2
    inferInstanceAs
      (Decidable ((∀ fault ∈ call.fault? (host.answer call).1, ¬ fault.IsShortage) ∧ _))

theorem Ensures.run_of_findsRoom {script : Script α} {post : α → Host → Prop} {host : Host}
    (h : script.Ensures .ample stop post host) (room : script.FindsRoom host) :
    post (script.run host).1 (script.run host).2 := by
  induction script generalizing host with
  | done value => exact h
  | step call next ih => exact ih _ (h.2 _ _ (Or.inl ⟨rfl, fun _ => room.1⟩)) room.2

/-! ## Results of runs that can be computed -/

section Outcomes

variable {α β σ : Type} {outcome : Except Error α × β} {outcome' : (Except Error α × σ) × β}

theorem eq_of_succeeded (h : outcome.1.toOption.isSome = true) :
    outcome = (.ok (outcome.1.toOption.get h), outcome.2) := by
  obtain ⟨result, after⟩ := outcome
  cases result with
  | ok value => rfl
  | error e => cases h

theorem exists_of_failed (h : outcome.1.toOption.isSome = false) :
    ∃ e, outcome = (.error e, outcome.2) := by
  obtain ⟨result, after⟩ := outcome
  cases result with
  | ok value => cases h
  | error e => exact ⟨e, rfl⟩

/-- The same where a value is given in any case. -/
theorem eq_of_succeeded_with (h : outcome'.1.1.toOption.isSome = true) :
    outcome' = ((.ok (outcome'.1.1.toOption.get h), outcome'.1.2), outcome'.2) := by
  have hfirst := eq_of_succeeded h
  exact Prod.ext hfirst rfl

theorem eq_of_done {outcome : (Except Error Unit × σ) × β}
    (h : outcome.1.1.toOption.isSome = true) :
    outcome = ((.ok (), outcome.1.2), outcome.2) :=
  eq_of_succeeded_with h

theorem exists_of_failed_with (h : outcome'.1.1.toOption.isSome = false) :
    ∃ e, outcome' = ((.error e, outcome'.1.2), outcome'.2) := by
  obtain ⟨e, hfirst⟩ := exists_of_failed h
  exact ⟨e, Prod.ext hfirst rfl⟩

end Outcomes

end Script

/-! ## Following a script that may fail -/

namespace Action

variable {α β : Type} {conduct : Conduct} {stop : Host → Prop}

/-- `Script.Ensures` with separate claims about success and failure. -/
def Ensures (conduct : Conduct) (stop : Host → Prop) (action : Action α)
    (ok : α → Host → Prop) (err : Error → Host → Prop) (host : Host) : Prop :=
  Script.Ensures conduct stop (ExceptT.run action)
    (fun
      | .ok value => ok value
      | .error e => err e)
    host

variable {ok : α → Host → Prop} {err : Error → Host → Prop} {host : Host}

theorem ensures_pure {value : α} (h : ok value host) :
    (pure value : Action α).Ensures conduct stop ok err host :=
  h

theorem ensures_throw {e : Error} (h : err e host) :
    (throw e : Action α).Ensures conduct stop ok err host :=
  h

theorem Ensures.mono {action : Action α} {weaker : Host → Prop} {ok' : α → Host → Prop}
    {err' : Error → Host → Prop} (h : action.Ensures conduct stop ok err host)
    (hstop : ∀ host, stop host → weaker host)
    (hok : ∀ value host, ok value host → ok' value host)
    (herr : ∀ e host, err e host → err' e host) :
    action.Ensures conduct weaker ok' err' host := by
  refine Script.Ensures.mono h hstop ?_
  intro result host h
  cases result with
  | ok value => exact hok value host h
  | error e => exact herr e host h

theorem Ensures.bind {action : Action α} {f : α → Action β} {ok : β → Host → Prop}
    (h : action.Ensures conduct stop (fun value => (f value).Ensures conduct stop ok err) err
      host) :
    (action >>= f).Ensures conduct stop ok err host := by
  refine Script.Ensures.bind_of h ?_
  intro result host h
  cases result with
  | ok value => exact h
  | error e => exact h

theorem Ensures.bind_of {action : Action α} {f : α → Action β} {middle : α → Host → Prop}
    {err' : Error → Host → Prop} {ok : β → Host → Prop}
    (h : action.Ensures conduct stop middle err' host)
    (rest : ∀ value host, middle value host → (f value).Ensures conduct stop ok err host)
    (herr : ∀ e host, err' e host → err e host) :
    (action >>= f).Ensures conduct stop ok err host :=
  Ensures.bind (h.mono (fun _ => id) rest herr)

theorem ensures_ofScript {script : Script α} (h : script.Ensures conduct stop ok host) :
    (ofScript script).Ensures conduct stop ok err host :=
  Script.Ensures.bind_of h fun _ _ h => h

theorem ensures_attempt {script : Script (Except SystemFault α)}
    (h : script.Ensures conduct stop
      (fun
        | .ok value => ok value
        | .error fault => err (.io (.system fault)))
      host) :
    (attempt script).Ensures conduct stop ok err host := by
  refine Script.Ensures.bind_of h ?_
  intro result host h
  cases result with
  | ok value => exact h
  | error fault => exact h

/-- A script that reads the result of an action. -/
theorem Ensures.script_bind {action : Action α} {f : Except Error α → Script β}
    {post : β → Host → Prop}
    (h : action.Ensures conduct stop
      (fun value => (f (.ok value)).Ensures conduct stop post)
      (fun e => (f (.error e)).Ensures conduct stop post) host) :
    (ExceptT.run action >>= f).Ensures conduct stop post host := by
  refine Script.Ensures.bind_of h ?_
  intro result host h
  cases result with
  | ok value => exact h
  | error e => exact h

theorem ensures_orElseCleanup {action : Action α} {cleanup : Script Unit}
    (h : action.Ensures conduct stop ok
      (fun e => cleanup.Ensures conduct stop fun _ => err e) host) :
    (action.orElseCleanup cleanup).Ensures conduct stop ok err host := by
  refine Script.Ensures.bind_of h ?_
  intro result host h
  cases result with
  | ok value => exact h
  | error e => exact Script.Ensures.bind_of h fun _ _ h => h

/-- An action that cannot fail gives a value on the host in memory. -/
theorem exists_of_ensures {action : Action α}
    (h : action.Ensures .own (fun _ => True) ok (fun _ _ => False) host) :
    ∃ value after, action.perform host = (.ok value, after) ∧ ok value after := by
  have h := Script.Ensures.run h
  unfold perform
  generalize Script.run (ExceptT.run action) host = result at h ⊢
  obtain ⟨result, after⟩ := result
  cases result with
  | ok value => exact ⟨value, after, rfl, h⟩
  | error e => exact h.elim

/-- What an action that cannot fail gives on the host in memory. -/
theorem perform_of_ensures {action : Action α} {value : α} {after : Host}
    (h : action.Ensures .own (fun _ => True) (fun found later => found = value ∧ later = after)
      (fun _ _ => False) host) :
    action.perform host = (.ok value, after) := by
  obtain ⟨found, later, hperform, rfl, rfl⟩ := exists_of_ensures h
  exact hperform

end Action

end OrderedStore
