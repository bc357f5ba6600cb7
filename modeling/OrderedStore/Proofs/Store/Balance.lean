import OrderedStore.Engine.Catalog
import OrderedStore.Proofs.Store.Accounting

/-!
# Handles are neither leaked nor closed twice

Whatever the engines do and whatever is asked for, as long as a store has a handle, one handle was
opened for it more than were closed, and once nothing refers to the store, every handle was closed
once.

Main definitions:

- `Session.Reaches`: what openings and requests lead to.
- `Session.Balanced`: what the book says about the stores of a session.

Main statement: `Session.handles_accounted`.
-/

namespace OrderedStore

/-! ## Calls that use the handle -/

/-- A handle whose answers never are that it is closed. -/
structure Frank {σ H : Type} [Backend (StateM σ) H] (handle : H) : Prop where
  get : ∀ key (s : σ), ((Backend.get handle key : StateM σ _) s).1 ≠ .error .closed
  put : ∀ key value (s : σ), ((Backend.put handle key value : StateM σ _) s).1.1 ≠ .error .closed
  delete : ∀ key (s : σ), ((Backend.delete handle key : StateM σ _) s).1.1 ≠ .error .closed
  write : ∀ batch (s : σ), ((Backend.write handle batch : StateM σ _) s).1.1 ≠ .error .closed

namespace Session

/-- The requests that use the handle of a store under a name of the store. -/
inductive Request.Uses (name : String) : Request → Prop where
  | get (key : Bytes) : Uses name (.get name key)
  | put (key value : Bytes) : Uses name (.put name key value)
  | remove (key : Bytes) : Uses name (.remove name key)
  | putAll (entries : List (Bytes × Bytes)) : Uses name (.putAll name entries)
  | removeAll (keys : List Bytes) : Uses name (.removeAll name keys)

/-- Whether a caller is told that a store is closed. -/
def Answer.isClosed : Answer → Bool
  | .done (.error .closed) => true
  | .found (.error .closed) => true
  | _ => false

end Session

namespace Store

variable {σ H : Type} {store : Store.Watching σ H} {s : σ × List Event}

/-- A call that is told what the handle tells is told that the store is closed exactly if there is
no handle. -/
theorem change_closed_iff (action : H → StateM σ (Except Error Unit × H))
    (frank : ∀ live, store.live = some live → ∀ s,
      (action live.handle.handle s).1.1 ≠ .error .closed) :
    (store.change none (Watched.use · action) s).1.1 = .error .closed ↔ store.isOpen = false := by
  unfold change current isOpen
  cases hlive : store.live with
  | none => exact ⟨fun _ => rfl, fun _ => rfl⟩
  | some live => exact ⟨fun heq => absurd heq (frank live hlive s.1), fun hnone => by cases hnone⟩

theorem get_closed_iff [Backend (StateM σ) H]
    (frank : ∀ live, store.live = some live → Frank (σ := σ) live.handle.handle) (key : Bytes) :
    (store.get key s).1 = .error .closed ↔ store.isOpen = false := by
  unfold Store.get ask current isOpen
  cases hlive : store.live with
  | none => exact ⟨fun _ => rfl, fun _ => rfl⟩
  | some live =>
    exact ⟨fun heq => absurd heq ((frank live hlive).get key s.1), fun hnone => by cases hnone⟩

theorem commitAll_closed_iff [Backend (StateM σ) H]
    (frank : ∀ live, store.live = some live → Frank (σ := σ) live.handle.handle)
    (mutations : List Mutation) :
    (store.commitAll mutations s).1.1 = .error .closed ↔ store.isOpen = false := by
  unfold commitAll Store.batch liveGeneration isOpen
  cases hlive : store.live with
  | none => exact ⟨fun _ => rfl, fun _ => rfl⟩
  | some live =>
    refine ⟨fun heq => absurd heq ?_, fun hnone => by cases hnone⟩
    have hcurrent : store.current (some store.generation) = .ok live := by simp [current, hlive]
    have hwrite := (frank live hlive).write (.ofList mutations) s.1
    rcases hrun : (Backend.write live.handle.handle (.ofList mutations) : StateM σ _) s.1 with
      ⟨⟨result, handle⟩, after⟩
    rw [hrun] at hwrite
    have hchange : (store.change (some store.generation)
        (Backend.write · (WriteBatch.ofList mutations)) s).1.1 = result := by
      simp only [change, hcurrent]
      exact congrArg (·.1.1) hrun
    change ((store.change (some store.generation)
      (Backend.write · (WriteBatch.ofList mutations)) s).1.1).mapError Batch.commitError ≠ _
    rw [hchange]
    cases result with
    | ok _ =>
      intro heq
      cases heq
    | error e =>
      -- The error of a handle that is gone is passed on, so it must not be the handle's answer.
      intro heq
      cases e <;> first | exact hwrite rfl | cases heq

theorem closed_close [Backend (StateM σ) H] (store : Store.Watching σ H) (s : σ × List Event) :
    (store.close s).1.2.closed = true := by
  unfold close
  cases store.live <;> rfl

end Store

namespace Session

variable {σ H : Type} {session : Watching σ H} {s : σ × List Event}

theorem serve_onStore {name : String} {id : Nat} {store : Store.Watching σ H}
    (hstore : session.store? name = some (id, store)) (s : σ × List Event)
    (action : Store.Watching σ H →
      StateM (σ × List Event) (Except Error Unit × Store.Watching σ H)) :
    answering .done (session.onStore name action) s =
      ((.done (action store s).1.1, session.setStore id (action store s).1.2),
        (action store s).2) := by
  unfold answering onStore
  rw [hstore]
  rfl

variable [Backend (StateM σ) H]

/-- A call that uses the handle is told that the store is closed exactly if there is no handle. -/
theorem isClosed_iff {name : String} {id : Nat} {store : Store.Watching σ H}
    (hstore : session.store? name = some (id, store)) {request : Request} (uses : request.Uses name)
    (frank : ∀ live, store.live = some live → Frank (σ := σ) live.handle.handle) :
    (session.serve request s).1.1.isClosed = true ↔ store.isOpen = false := by
  have hdone (result : Except Error Unit) :
      (Answer.done result).isClosed = true ↔ result = .error .closed := by
    rcases result with e | _
    · cases e <;> simp [Answer.isClosed]
    · simp [Answer.isClosed]
  cases uses with
  | get key =>
    have hget : (session.serve (.get name key) s).1.1 = .found (store.get key s).1 := by
      simp only [serve, ask, hstore]
      rfl
    have hfound (result : Except Error (Option Bytes)) :
        (Answer.found result).isClosed = true ↔ result = .error .closed := by
      rcases result with e | _
      · cases e <;> simp [Answer.isClosed]
      · simp [Answer.isClosed]
    rw [hget, hfound]
    exact Store.get_closed_iff frank key
  | put key value =>
    simp only [serve]
    rw [serve_onStore hstore s, hdone]
    exact Store.change_closed_iff _ fun live hlive => (frank live hlive).put key value
  | remove key =>
    simp only [serve]
    rw [serve_onStore hstore s, hdone]
    exact Store.change_closed_iff _ fun live hlive => (frank live hlive).delete key
  | putAll entries =>
    simp only [serve]
    rw [serve_onStore hstore s, hdone]
    exact Store.commitAll_closed_iff frank _
  | removeAll keys =>
    simp only [serve]
    rw [serve_onStore hstore s, hdone]
    exact Store.commitAll_closed_iff frank _

/-! ## Runs -/

/-- What openings and requests lead to. The engines may be others for each store; a store is watched
under the number that it gets. -/
inductive Reaches (session : Watching σ H) (s : σ × List Event) :
    Watching σ H → σ × List Event → Prop where
  | refl : Reaches session s session s
  | connect {middle after : Watching σ H} {s₁ s₂ : σ × List Event} {name : String}
      {config : Config} {selector : Selector (StateM σ) H}
      {outcome : Except Error (Store.Watching σ H)} : Reaches session s middle s₁ →
      middle.connect name config (selector.watched middle.fresh) s₁ = ((outcome, after), s₂) →
      Reaches session s after s₂
  | serve {middle after : Watching σ H} {s₁ s₂ : σ × List Event} {request : Request}
      {answer : Answer} : Reaches session s middle s₁ →
      middle.serve request s₁ = ((answer, after), s₂) → Reaches session s after s₂

variable {later : Watching σ H} {s' : σ × List Event}

/-- A whole run leaves what each of its steps leaves. -/
theorem Reaches.proceeds (reaches : Reaches session s later s')
    (orderly : session.Orderly s.2) : session.Proceeds s.2 later s'.2 := by
  induction reaches with
  | refl => exact orderly.proceeds_refl
  | connect _ hrun ih =>
    have step := (Orderly.connect ⟨ih.squared, ih.wanted⟩ rfl hrun).1
    exact ⟨ih.toGoes.trans step.toGoes, step.wanted⟩
  | serve _ hrun ih =>
    have step := Orderly.serve ⟨ih.squared, ih.wanted⟩ hrun
    exact ⟨ih.toGoes.trans step.toGoes, step.wanted⟩

/-- Any store can be opened next. -/
theorem Reaches.opening (reaches : Reaches session s later s') (name : String) (config : Config)
    (selector : Selector (StateM σ) H) :
    Reaches session s (later.connect name config (selector.watched later.fresh) s').1.2
      (later.connect name config (selector.watched later.fresh) s').2 :=
  reaches.connect rfl

/-- Anything can be asked for next. -/
theorem Reaches.on (reaches : Reaches session s later s') (request : Request) :
    Reaches session s (later.serve request s').1.2 (later.serve request s').2 :=
  reaches.serve rfl

/-! ## The balance -/

/-- What the book says about the stores of a session. -/
structure Balanced (session : Watching σ H) (s : σ × List Event) : Prop where
  /-- One handle more was opened than closed if the store has a handle, and as many otherwise. -/
  open_one : ∀ {id store}, session.shared.find? id = some store →
    (openings (dealings id s.2)).length =
      (closings (dealings id s.2)).length + store.isOpen.toNat
  /-- At every time in the past, as many were opened as closed or one more. -/
  never_two : ∀ {id part}, part <+: dealings id s.2 →
    (openings part).length = (closings part).length ∨
      (openings part).length = (closings part).length + 1
  /-- All that was done for a store are attempts, none while a handle was open, and closings. -/
  attempts : ∀ id, ∃ live?, Account (dealings id s.2) live?
  /-- Opening a store is one attempt, unless its configuration is refused. -/
  connect : ∀ {name config} {selector : Selector (StateM σ) H} {outcome after s'},
    session.connect name config (selector.watched session.fresh) s = ((outcome, after), s') →
      config.validate = .ok () → ∃ more live?,
        dealings session.fresh s'.2 = dealings session.fresh s.2 ++ more ∧
        Attempt (openings (dealings session.fresh s.2)).length more live? ∧
        outcome.isOk = live?.isSome
  /-- A flush gives the handle up, if there is one, and is one attempt. -/
  flush : ∀ {name id store}, session.store? name = some (id, store) → store.closed = false →
    ∃ result after s' more live?, session.serve (.flush name) s = ((.done result, after), s') ∧
      dealings id s'.2 = dealings id s.2 ++ store.parting ++ more ∧
      Attempt (openings (dealings id s.2)).length more live? ∧ result.isOk = live?.isSome
  /-- The calls that use a handle are refused exactly if there is none. -/
  refused : ∀ {name id store}, session.store? name = some (id, store) →
    (∀ live, store.live = some live → Frank (σ := σ) live.handle.handle) →
    ∀ {request : Request}, request.Uses name →
      ((session.serve request s).1.1.isClosed = true ↔ store.isOpen = false)
  /-- Once a store was closed, nothing is done for it any more, and closing it again succeeds. -/
  close : ∀ {name id store}, session.store? name = some (id, store) →
    ∃ result after s', session.serve (.close name) s = ((.done result, after), s') ∧
      ∀ later s'', Reaches after s' later s'' → dealings id s''.2 = dealings id s'.2 ∧
        ∀ {other store'}, later.store? other = some (id, store') →
          ∃ last, later.serve (.close other) s'' = ((.done (.ok ()), last), s'')
  /-- A store that nothing refers to is gone, and each of its handles was closed once. -/
  gone : ∀ {id}, session.refersTo id = false → session.shared.find? id = none ∧
    openings (dealings id s.2) = closings (dealings id s.2) ∧
    (closings (dealings id s.2)).Nodup

theorem Orderly.close (orderly : session.Orderly s.2) {name : String} {id : Nat}
    {store : Store.Watching σ H} (hstore : session.store? name = some (id, store)) :
    ∃ result after s', session.serve (.close name) s = ((.done result, after), s') ∧
      ∀ later s'', Reaches after s' later s'' → dealings id s''.2 = dealings id s'.2 ∧
        ∀ {other store'}, later.store? other = some (id, store') →
          ∃ last, later.serve (.close other) s'' = ((.done (.ok ()), last), s'') := by
  have hrun : session.serve (.close name) s = ((.done (store.close s).1.1,
      session.setStore id (store.close s).1.2), (store.close s).2) :=
    serve_onStore hstore s Store.close
  have hshared := store?_eq_some hstore
  have proceeds := orderly.serve hrun
  -- From the closing on the store is shut, and whatever follows leaves it so.
  have shut : (session.setStore id (store.close s).1.2).Shut id := by
    refine ⟨orderly.squared.bounded hshared, fun found hfound => ?_⟩
    change (session.shared.insert id (store.close s).1.2).find? id = some found at hfound
    rw [Dictionary.find?_insert, if_pos rfl] at hfound
    cases hfound
    exact store.closed_close s
  refine ⟨_, _, _, hrun, fun later s'' reaches => ?_⟩
  have later_proceeds := reaches.proceeds ⟨proceeds.squared, proceeds.wanted⟩
  obtain ⟨hlater, hdealings⟩ := later_proceeds.shut id shut
  refine ⟨hdealings, fun {other store'} hother => ?_⟩
  have hfound := store?_eq_some hother
  have hnone := (later_proceeds.squared.accounted hfound).shut (hlater.2 store' hfound)
  have hagain : store'.close s'' = ((.ok (), { store' with closed := true }), s'') := by
    unfold Store.close
    rw [hnone]
    rfl
  refine ⟨later.setStore id { store' with closed := true }, ?_⟩
  have hserve := serve_onStore hother s'' Store.close
  rw [hagain] at hserve
  exact hserve

/-- Whatever the engines do and whatever is asked for, the book is balanced. -/
theorem handles_accounted {s₀ : σ} (reaches : Reaches ({} : Watching σ H) (s₀, []) session s) :
    session.Balanced s := by
  have proceeds := reaches.proceeds ⟨squared_empty, nofun⟩
  have orderly : session.Orderly s.2 := ⟨proceeds.squared, proceeds.wanted⟩
  -- For a number that no store has now, the account is closed or was never opened.
  have account (id : Nat) : ∃ live?, Account (dealings id s.2) live? := by
    cases hstore : session.shared.find? id with
    | none => exact ⟨none, orderly.squared.gone hstore⟩
    | some store => exact ⟨_, (orderly.squared.accounted hstore).account⟩
  refine ⟨?_, ?_, account, ?_, ?_, ?_, ?_, ?_⟩
  · intro id store hstore
    rw [(orderly.squared.accounted hstore).account.balanced, List.length_append]
    unfold Store.isOpen numberOf
    cases store.live <;> rfl
  · intro id part hpart
    obtain ⟨live?, haccount⟩ := account id
    obtain ⟨open?, hopen⟩ := haccount.prefix_balanced hpart
    rw [hopen, List.length_append]
    cases open? with
    | none => exact .inl rfl
    | some number => exact .inr rfl
  · intro name config selector outcome after s' hrun
    exact (orderly.connect rfl hrun).2
  · intro name id store hstore hopen
    have accounted := orderly.squared.accounted (store?_eq_some hstore)
    obtain ⟨result, store', s', more, live?, hflush, _, hdealings, hattempt, hresult⟩ :=
      accounted.flush_enters hopen
    have hrun := serve_onStore hstore s Store.flush
    rw [hflush] at hrun
    exact ⟨result, _, s', more, live?, hrun, hdealings, hattempt, hresult⟩
  · intro name id store hstore frank request uses
    exact isClosed_iff hstore uses frank
  · intro name id store hstore
    exact orderly.close hstore
  · intro id hunwanted
    have hgone : session.shared.find? id = none := by
      by_contra hsome
      obtain ⟨store, hstore⟩ := Option.ne_none_iff_exists'.1 hsome
      have hwanted := orderly.wanted id store hstore
      rw [hunwanted] at hwanted
      cases hwanted
    have haccount := orderly.squared.gone hgone
    have hbalanced := haccount.balanced
    rw [Option.toList_none, List.append_nil] at hbalanced
    -- The closings are the openings, and those are numbered from zero on.
    refine ⟨hgone, hbalanced, ?_⟩
    rw [← hbalanced, haccount.numbered]
    exact List.nodup_range

/-- A world in which the second attempt to open a handle fails for both engines, and no handle can
be closed in good order. -/
def ailingWorld : World where
  engines := (Dictionary.empty.insert "f" (.failing {})).insert "m"
    (.memory { failOpenAt := some 2, failClose := true })

/-- The engines of that world. -/
def ailingSelector : Selector (StateM World) WorldHandle where
  preferred := ⟨.portable, World.connect "m"⟩
  fallback := ⟨.native, World.connect "f"⟩

/-- A store of that world that was flushed twice, of which the first flush failed, and let go while
a cursor still referred to it, and then the cursor as well. -/
theorem handles_accounted_ailing :
    ∃ (session : Watching World WorldHandle) (s : World × List Event),
      Reaches {} (ailingWorld, []) session s ∧ session.refersTo 0 = false ∧
      openings (dealings 0 s.2) = [0, 1] ∧ closings (dealings 0 s.2) = [0, 1] ∧
      (dealings 0 s.2).length = 6 ∧ session.Balanced s := by
  have start := (Reaches.refl : Reaches ({} : Watching World WorldHandle) (ailingWorld, []) _ _)
  have start := start.opening "s" {} ailingSelector
  have flushed := ((start.on (.put "s" [1] [10])).on (.flush "s")).on (.flush "s")
  have walked := (flushed.on (.search "s" "c" [])).on (.nextEntry "c")
  have reaches := (walked.on (.release "s")).on (.dropCursor "c")
  exact ⟨_, _, reaches, rfl, rfl, rfl, rfl, handles_accounted reaches⟩

end Session

end OrderedStore
