import OrderedStore.Proofs.Host.Errors

/-!
# Refusals that are passed on

An action that does nothing about the refusal of a call fails with it. So a hindered run of such an
action is the one in which no call is refused, or it fails with a refusal.

Main definition: `Action.Strict`.

Main statements: `Action.Strict.bind`, `Action.strict_attempt`, `Action.Strict.orElseCleanup`.
-/

namespace OrderedStore.Action

variable {α β : Type} {may : Host → Call → Prop} {host after : Host} {action : Action α}

/-- Where a run of the action is hindered, it fails with what a call was refused for. All other runs
are the one of the host in memory, but for what is tidied up after a failure. -/
structure Strict (action : Action α) : Prop where
  ok : ∀ {may host value after}, action.run.Endures may host (.ok value) after →
    action.perform host = (.ok value, after)
  err : ∀ {may host e after}, action.run.Endures may host (.error e) after →
    e.OfSystem ∨ (action.perform host).1 = .error e

theorem perform_bind {f : α → Action β} {value : α} (h : action.perform host = (.ok value, after)) :
    (action >>= f).perform host = (f value).perform after := by
  change (action.run >>= _).run host = _
  rw [Script.run_bind, show action.run.run host = (.ok value, after) from h]
  rfl

theorem perform_bind_error {f : α → Action β} {e : Error} (h : (action.perform host).1 = .error e) :
    ((action >>= f).perform host).1 = .error e := by
  change ((action.run >>= _).run host).1 = _
  rw [Script.run_bind, show (action.run.run host).1 = .error e from h]
  rfl

theorem strict_pure (value : α) : (pure value : Action α).Strict where
  ok run := by
    cases run
    rfl
  err run := by cases run

theorem strict_throw (e : Error) : (throw e : Action α).Strict where
  ok run := by cases run
  err run := by
    cases run
    exact Or.inr rfl

theorem Strict.bind {f : α → Action β} (h : action.Strict) (rest : ∀ value, (f value).Strict) :
    (action >>= f).Strict where
  ok run := by
    rcases endures_bind run with ⟨_, he, _⟩ | ⟨value, between, hfirst, hrest⟩
    · cases he
    · rw [perform_bind (h.ok hfirst)]
      exact (rest value).ok hrest
  err run := by
    rcases endures_bind run with ⟨_, he, hfirst⟩ | ⟨value, between, hfirst, hrest⟩
    · cases he
      exact (h.err hfirst).imp_right perform_bind_error
    · rw [perform_bind (h.ok hfirst)]
      exact (rest value).err hrest

/-- A call whose refusal is thrown. -/
theorem strict_attempt {call : Call} {ask : call.Reply → Except SystemFault α}
    (refusal : ∀ reply, call.fault? reply = faultOf (ask reply)) :
    (attempt (.step call fun reply => .done (ask reply))).Strict := by
  have hrun : ∀ {may host result after},
      (attempt (.step call fun reply => .done (ask reply))).run.Endures may host result after →
      (∃ e, result = .error e ∧ e.OfSystem) ∨
        (attempt (.step call fun reply => .done (ask reply))).perform host = (result, after) := by
    intro may host result after run
    obtain ⟨reply, between, hcall, hrest⟩ := Script.Endures.of_bind run
    cases hcall with
    | answered hdone =>
      cases hdone
      refine Or.inr ?_
      cases hask : ask (host.answer call).1 <;>
        · rw [hask] at hrest
          cases hrest
          simp only [perform, attempt, ExceptT.run_mk, Script.bind_step, Script.run,
            Script.bind_done, hask]
          rfl
    | @refused _ _ reply _ _ _ _ hfault hdone =>
      cases hdone
      rw [refusal] at hfault
      cases hask : ask reply with
      | ok value =>
        rw [hask] at hfault
        cases hfault
      | error fault =>
        rw [hask] at hrest
        cases hrest
        exact Or.inl ⟨_, rfl, fault, rfl⟩
  constructor
  · intro may host value after run
    rcases hrun run with ⟨_, he, _⟩ | hplain
    · cases he
    · exact hplain
  · intro may host e after run
    rcases hrun run with ⟨_, he, hsystem⟩ | hplain
    · cases he
      exact Or.inl hsystem
    · exact Or.inr (by rw [hplain])

/-- A call that cannot be refused. -/
theorem strict_ofScript_call {call : Call} (sure : ∀ reply, call.fault? reply = none) :
    (ofScript (Script.call call)).Strict := by
  have hrun : ∀ {may host result after},
      (ofScript (Script.call call)).run.Endures may host result after →
      (ofScript (Script.call call)).perform host = (result, after) := by
    intro may host result after run
    obtain ⟨reply, between, hcall, hrest⟩ := Script.Endures.of_bind run
    rcases hcall.of_call with hanswer | ⟨_, hfault, _⟩
    · cases hrest
      change (Except.ok (host.answer call).1, (host.answer call).2) = _
      rw [hanswer]
    · rw [sure] at hfault
      cases hfault
  exact ⟨hrun, fun run => Or.inr (by rw [hrun run])⟩

/-- What is tidied up after a failure does not matter. -/
theorem Strict.orElseCleanup {cleanup : Script Unit} (h : action.Strict) :
    (action.orElseCleanup cleanup).Strict where
  ok run := by
    obtain ⟨result, between, hfirst, hrest⟩ := Script.Endures.of_bind run
    cases result with
    | ok value =>
      cases hrest
      change (action.run >>= _).run _ = _
      rw [Script.run_bind, show action.run.run _ = _ from h.ok hfirst]
      rfl
    | error e =>
      obtain ⟨_, _, _, hdone⟩ := Script.Endures.of_bind hrest
      cases hdone
  err {_ host e _} run := by
    obtain ⟨result, between, hfirst, hrest⟩ := Script.Endures.of_bind run
    cases result with
    | ok value => cases hrest
    | error found =>
      obtain ⟨_, _, _, hdone⟩ := Script.Endures.of_bind hrest
      cases hdone
      refine (h.err hfirst).imp_right fun hplain => ?_
      change ((action.run >>= _).run host).1 = _
      rw [Script.run_bind, show (action.run.run host).1 = .error e from hplain]
      change ((cleanup >>= _).run (action.run.run host).2).1 = _
      rw [Script.run_bind]
      rfl

theorem strict_read (handle : Handle) (offset count : Nat) : (read handle offset count).Strict :=
  @strict_attempt Bytes (.read handle offset count) id fun _ => rfl

theorem strict_write (handle : Handle) (offset : Nat) (data : Bytes) :
    (write handle offset data).Strict :=
  @strict_attempt Unit (.write handle offset data) id fun _ => rfl

theorem strict_openFile (path : Path) (mode : OpenMode) : (openFile path mode).Strict :=
  @strict_attempt Handle (.openFile path mode) id fun _ => rfl

theorem strict_rename (source target : Path) : (rename source target).Strict :=
  @strict_attempt Unit (.rename source target) id fun _ => rfl

theorem strict_sync (handle : Handle) : (sync handle).Strict :=
  @strict_attempt Unit (.sync handle) id fun _ => rfl

theorem strict_size (handle : Handle) : (size handle).Strict :=
  strict_ofScript_call fun _ => rfl

end OrderedStore.Action
