import OrderedStore.Engine.Catalog
import OrderedStore.Proofs.Store.Writers

/-!
# Batches are isolated

Every run of a session over handles that keep a map is a run of a board with the same answers: what
is queued, given up or forgotten never shows in the map, a commit takes effect on the map of its
time as a whole or not at all, and a list of changes does what the changes do one by one.

Main definitions:

- `Board.Follows`: a request as a step of the board.
- `Session.Serves`: a run of requests with their answers.

Main statement: `Session.batches_isolated`.
-/

namespace OrderedStore

open Session (Request Answer)

namespace Board

variable {σ H : Type} {terms : Terms σ H} {board board' : Board}
  {session session' : Session (StateM σ) H} {store store' : Store (StateM σ) H} {s s' : σ}
  {name : String}

/-! ## Requests as steps -/

theorem answering_run {α : Type} (answer : α → Answer) (value : α)
    {call : StateM σ (Option α × Session (StateM σ) H)}
    (hcall : call s = ((some value, session'), s')) :
    Session.answering answer call s = ((answer value, session'), s') :=
  state_bind hcall

theorem answering_unknown {α : Type} (answer : α → Answer)
    {call : StateM σ (Option α × Session (StateM σ) H)}
    (hcall : call s = ((none, session'), s')) :
    Session.answering answer call s = ((.unknown, session'), s') :=
  state_bind hcall

/-- A call on a store that has a name. -/
theorem Lists.onStore (lists : board.Lists session store) (hname : board.names name = true)
    {result : Except Error Unit}
    {action : Store (StateM σ) H → StateM σ (Except Error Unit × Store (StateM σ) H)}
    (haction : action store s = ((result, store'), s')) :
    Session.answering .done (session.onStore name action) s =
      ((.done result, session.setStore 0 store'), s') := by
  refine answering_run .done result ?_
  unfold Session.onStore
  rw [lists.store? name, hname]
  exact state_bind haction

/-- A mutation that joins a queue. -/
theorem queue_queueing (batch : Batch) (mutation : Mutation) (store : Store (StateM σ) H) :
    (Session.queueing mutation batch).queue store =
      { batch.queue store with mutations := (batch.queue store).mutations ++ [mutation] } := by
  cases mutation <;>
    simp [Session.queueing, Batch.put, Batch.delete, Batch.queue, WriteBatch.put,
      WriteBatch.delete]

theorem Lists.pending_of_find? (lists : board.Lists session store) {batch : Batch} {id : Nat}
    (hbatch : session.batches.find? name = some (id, batch)) :
    board.pending name = some (batch.queue store) := by
  rw [lists.pending, hbatch]
  rfl

variable [Backend (StateM σ) H]

/-- What a session shows after a request, as a step of the board. -/
def Follows (terms : Terms σ H) (board : Board) (session : Session (StateM σ) H)
    (request : Request) (s : σ) : Prop :=
  ∃ answer board' session' s', session.serve request s = ((answer, session'), s') ∧
    board.Step request answer board' ∧ board'.Shows terms session' s'

theorem Lists.follows_changes (lists : board.Lists session store)
    (serves : board.Serves terms store s)
    {request : Request} {mutations : List Mutation}
    {action : Store (StateM σ) H → StateM σ (Except Error Unit × Store (StateM σ) H)}
    (hname : board.names name = true) (hchanges : request.changes? = some (name, mutations))
    (hserve : session.serve request = Session.answering .done (session.onStore name action))
    (makes : Makes terms mutations action) :
    Follows terms board session request s := by
  obtain ⟨result, store', after, hrun, stays, hserves, hopen⟩ := makes board store s serves
  refine ⟨.done result, board.settled mutations result, session.setStore 0 store', after, ?_, ?_,
    .there (lists.stays stays rfl rfl) hserves⟩
  · rw [hserve]
    exact lists.onStore hname hrun
  · cases result with
    | error e =>
      rw [settled_error]
      exact .unchanged hchanges hname
    | ok _ =>
      rw [settled_ok]
      exact .changed hchanges hname (hopen rfl)

theorem Lists.follows_flush (kept : terms.Kept)
    (lists : board.Lists session store)
    (serves : board.Serves terms store s)
    (hname : board.names name = true) :
    Follows terms board session (.flush name) s := by
  obtain ⟨result, store', after, content?, hrun, hgeneration, hserves, hresult⟩ :=
    serves.flush kept
  exact ⟨.done result, board.renew content?, session.setStore 0 store', after,
    lists.onStore hname hrun, .flush hname hresult,
    .there (lists.renew hgeneration content?) hserves⟩

theorem Lists.follows_close (kept : terms.Kept) (lists : board.Lists session store)
    (serves : board.Serves terms store s)
    (hname : board.names name = true) :
    Follows terms board session (.close name) s := by
  obtain ⟨result, store', after, hrun, hgeneration, hserves⟩ := serves.close kept
  exact ⟨.done result, board.renew none, session.setStore 0 store', after,
    lists.onStore hname hrun, .close hname, .there (lists.renew hgeneration none) hserves⟩

theorem Lists.follows_get (kept : terms.Kept)
    (lists : board.Lists session store)
    (serves : board.Serves terms store s)
    (hname : board.names name = true) (key : Bytes) :
    ∃ s', session.serve (.get name key) s = ((.found (board.answer key), session), s') ∧
      board.Shows terms session s' := by
  have hstore := lists.store? name
  rw [hname, if_pos rfl] at hstore
  cases hlive : store.live with
  | none =>
    refine ⟨s, ?_, .there lists serves⟩
    unfold Board.answer
    rw [serves.content, hlive]
    simp only [Session.serve, Session.ask, hstore, Store.get, Store.ask, Store.current, hlive]
    rfl
  | some live =>
    obtain ⟨after, hget, hready, hkept⟩ := kept.get live.handle key s (serves.ready live hlive)
    have hask : session.ask name (Store.get · key) s =
        (some (.ok (terms.content live.handle s key)), after) := by
      simp only [Session.ask, hstore, Store.get, Store.ask, Store.current, hlive]
      exact state_bind hget
    refine ⟨after, ?_, .there lists ⟨serves.config, serves.selector, serves.shut, ?_, ?_, ?_⟩⟩
    · unfold Board.answer
      rw [serves.content, hlive]
      exact state_bind hask
    · intro other hother
      cases hlive.symm.trans hother
      exact hready
    · intro hnone
      cases hlive.symm.trans hnone
    · rw [serves.content, hlive, Option.map_some, Option.map_some, hkept]

/-- What is left once what nothing refers to was closed. -/
theorem Lists.tidied {α : Type} (value : α) (lists : board.Lists session store)
    (serves : board.Serves terms store s) :
    ∃ session' s', (do return (value, ← session.tidy) : StateM σ (α × Session (StateM σ) H)) s =
      ((value, session'), s') ∧ board.Shows terms session' s' := by
  obtain ⟨session', s', htidy, shows⟩ := lists.tidy serves
  exact ⟨session', s', state_bind htidy, shows⟩

theorem Lists.follows_share (lists : board.Lists session store)
    (serves : board.Serves terms store s)
    (hname : board.names name = true) (other : String) :
    Follows terms board session (.share name other) s := by
  have hsome : (session.stores.find? name).isSome = true := lists.names name ▸ hname
  obtain ⟨id, hid⟩ := Option.isSome_iff_exists.1 hsome
  obtain rfl := lists.stores hid
  have hlists := lists.called other true (Dictionary.find?_insert session.stores other · 0)
  obtain ⟨session', s', htidy, shows⟩ := hlists.tidied (some ()) { serves with }
  refine ⟨.named, _, session', s', answering_run _ () ?_, .share hname, shows⟩
  unfold Session.share
  rw [hid]
  exact htidy

theorem Lists.follows_release (lists : board.Lists session store)
    (serves : board.Serves terms store s)
    (hname : board.names name = true) :
    Follows terms board session (.release name) s := by
  have hsome : (session.stores.find? name).isSome = true := lists.names name ▸ hname
  obtain ⟨id, hid⟩ := Option.isSome_iff_exists.1 hsome
  have hlists := lists.called name false (Dictionary.find?_erase session.stores name)
  obtain ⟨session', s', htidy, shows⟩ := hlists.tidied (some ()) { serves with }
  refine ⟨.named, _, session', s', answering_run _ () ?_, .release hname, shows⟩
  unfold Session.release
  rw [hid]
  exact htidy

theorem Lists.follows_drop (lists : board.Lists session store)
    (serves : board.Serves terms store s) {batch : Batch} {id : Nat}
    (hbatch : session.batches.find? name = some (id, batch)) :
    Follows terms board session (.dropBatch name) s := by
  have hlists := lists.batched name none (Dictionary.find?_erase session.batches name) nofun
  obtain ⟨session', s', htidy, shows⟩ := hlists.tidied (some ()) { serves with }
  refine ⟨.named, _, session', s', answering_run _ () ?_, .drop (lists.pending_of_find? hbatch),
    shows⟩
  unfold Session.dropBatch
  rw [hbatch]
  exact htidy

theorem Lists.follows_begin (lists : board.Lists session store)
    (serves : board.Serves terms store s)
    (hname : board.names name = true) (batch : String) :
    Follows terms board session (.beginBatch name batch) s := by
  have hstore := lists.store? name
  rw [hname, if_pos rfl] at hstore
  cases hlive : store.live with
  | none =>
    have hcontent : board.content = none := by rw [serves.content, hlive]; rfl
    refine ⟨.done (.error .closed), board, session, s, answering_run .done (.error .closed) ?_,
      .beginClosed hname hcontent, .there lists serves⟩
    unfold Session.beginBatch
    simp only [hstore, Store.batch, Store.liveGeneration, hlive]
    rfl
  | some live =>
    let begun : Batch := { generation := store.generation }
    have hcontent : board.content.isSome = true := by rw [serves.content, hlive]; rfl
    have hlists := lists.batched batch (some begun)
      (Dictionary.find?_insert session.batches batch · (0, begun)) (by
        rintro _ ⟨⟩
        exact ⟨Nat.le_refl _, fun hnone => by cases hnone.symm.trans hlive⟩)
    have hqueue : (some begun).map (·.queue store) = some ⟨true, []⟩ := by
      simp [begun, Batch.queue, Store.isCurrent, hlive]
    rw [hqueue] at hlists
    let result : Option (Except Error Unit) := some (.ok ())
    obtain ⟨session', s', htidy, shows⟩ := hlists.tidied result { serves with }
    refine ⟨.done (.ok ()), _, session', s', answering_run .done (.ok ()) ?_,
      .begin hname hcontent, shows⟩
    unfold Session.beginBatch
    simp only [hstore, Store.batch, Store.liveGeneration, hlive]
    exact htidy

theorem Lists.follows_queue (lists : board.Lists session store)
    (serves : board.Serves terms store s) {batch : Batch} {id : Nat}
    (hbatch : session.batches.find? name = some (id, batch)) (mutation : Mutation) :
    Follows terms board session (.queue name mutation) s := by
  obtain ⟨rfl, hgenerations⟩ := lists.batches hbatch
  have hqueue := queue_queueing batch mutation store
  have hlists := lists.batched name (some (Session.queueing mutation batch))
    (Dictionary.find?_insert session.batches name · (0, Session.queueing mutation batch)) (by
      rintro _ ⟨⟩
      rw [Session.queueing_generation]
      exact hgenerations)
  rw [Option.map_some, hqueue] at hlists
  have hsize : (Session.queueing mutation batch).size =
      (batch.queue store).mutations.length + 1 := by
    have hlength := congrArg (fun queue => queue.mutations.length) hqueue
    simpa [Batch.queue, Batch.size] using hlength
  have hrun : session.serve (.queue name mutation) s =
      ((.queued (Session.queueing mutation batch).size, { session with
        batches := session.batches.insert name (0, Session.queueing mutation batch) }), s) := by
    refine answering_run (.queued ·.size) (Session.queueing mutation batch) ?_
    unfold Session.updateBatch
    rw [hbatch]
    rfl
  rw [hsize] at hrun
  exact ⟨_, _, _, s, hrun, .queue (lists.pending_of_find? hbatch), .there hlists { serves with }⟩

theorem Lists.follows_commit (kept : terms.Kept)
    (lists : board.Lists session store)
    (serves : board.Serves terms store s) {batch : Batch} {id : Nat}
    (hbatch : session.batches.find? name = some (id, batch)) :
    Follows terms board session (.commitBatch name) s := by
  have hpending := lists.pending_of_find? hbatch
  have hfind := lists.batch? hbatch
  have hserve {result : Except Error Unit} {store' : Store (StateM σ) H}
      {session' : Session (StateM σ) H} {s₁ s₂ : σ}
      (hcommit : batch.commit store s = ((result, store'), s₁))
      (htidy : (do return (some result, ← { session.setStore 0 store' with
        batches := session.batches.erase name }.tidy) : StateM σ _) s₁ =
          ((some result, session'), s₂)) :
      session.serve (.commitBatch name) s = ((.done result, session'), s₂) := by
    refine answering_run .done result ?_
    unfold Session.commitBatch
    simp only [hfind]
    exact (state_bind hcommit).trans htidy
  cases hcurrent : store.isCurrent batch.generation with
  | false =>
    have hcommit : batch.commit store s = ((.error .staleHandle, store), s) := by
      rw [Batch.refused_of_stale hcurrent]
      rfl
    have hlists := (lists.stays ⟨rfl, rfl⟩ rfl rfl).batched name none
      (Dictionary.find?_erase session.batches name) nofun
    obtain ⟨session', s', htidy, shows⟩ :=
      hlists.tidied (some (Except.error Error.staleHandle : Except Error Unit)) { serves with }
    exact ⟨.done (.error .staleHandle), board.put name none, session', s', hserve hcommit htidy,
      .commitStale hpending hcurrent, shows⟩
  | true =>
    obtain ⟨result, store', after, hcommit, stays, hserves⟩ := serves.commit kept hcurrent
    have hstays : (board.settled batch.pending.toList result).Lists (session.setStore 0 store')
        store' := lists.stays stays rfl rfl
    have hlists := hstays.batched name none (Dictionary.find?_erase session.batches name) nofun
    obtain ⟨session', s', htidy, shows⟩ :=
      hlists.tidied (some (result.mapError Batch.commitError)) { hserves with }
    refine ⟨.done (result.mapError Batch.commitError), _, session', s', hserve hcommit htidy, ?_,
      shows⟩
    -- Taking the batch away and making its changes are independent.
    change Step board _ _ ((board.put name none).settled batch.pending.toList result)
    cases result with
    | error e =>
      rw [settled_error]
      exact .commitFailed hpending hcurrent
    | ok _ =>
      rw [settled_ok]
      exact .commit hpending hcurrent

/-! ## Names that nothing has -/

theorem serve_unnamed {request : Request} (hrequest : request.store? = some name)
    (hname : session.stores.find? name = none) :
    session.serve request s = ((.unknown, session), s) := by
  have hstore : session.store? name = none := by
    unfold Session.store?
    rw [hname]
  cases request
  all_goals
    cases hrequest
  case share other =>
    refine answering_unknown _ ?_
    unfold Session.share
    rw [hname]
    rfl
  case release =>
    refine answering_unknown _ ?_
    unfold Session.release
    rw [hname]
    rfl
  case get key =>
    simp only [Session.serve, Session.ask, hstore]
    rfl
  case beginBatch batch =>
    refine answering_unknown _ ?_
    unfold Session.beginBatch
    rw [hstore]
    rfl
  case search cursor start =>
    refine answering_unknown _ ?_
    unfold Session.search
    rw [hstore]
    rfl
  all_goals
    refine answering_unknown _ ?_
    unfold Session.onStore
    rw [hstore]
    rfl

theorem serve_unbegun {request : Request} (hrequest : request.batch? = some name)
    (hname : session.batches.find? name = none) :
    session.serve request s = ((.unknown, session), s) := by
  have hbatch : session.batch? name = none := by
    unfold Session.batch?
    rw [hname]
  cases request
  all_goals
    cases hrequest
  case queue mutation =>
    refine answering_unknown _ ?_
    unfold Session.updateBatch
    rw [hname]
    rfl
  case commitBatch =>
    refine answering_unknown _ ?_
    unfold Session.commitBatch
    rw [hbatch]
    rfl
  case dropBatch =>
    refine answering_unknown _ ?_
    unfold Session.dropBatch
    rw [hname]
    rfl

theorem Shows.follows_unnamed (shows : board.Shows terms session s)
    {request : Request} (hrequest : request.store? = some name)
    (hname : board.names name = false) :
    Follows terms board session request s := by
  have hnone : session.stores.find? name = none := by
    cases shows with
    | there lists _ => simpa [lists.names name] using hname
    | gone left => exact left.stores name
  exact ⟨.unknown, board, session, s, serve_unnamed hrequest hnone, .unnamed hrequest hname, shows⟩

theorem Shows.follows_unbegun (shows : board.Shows terms session s)
    {request : Request} (hrequest : request.batch? = some name)
    (hname : board.pending name = none) :
    Follows terms board session request s := by
  have hnone : session.batches.find? name = none := by
    cases shows with
    | there lists _ => simpa [lists.pending name] using hname
    | gone left => exact left.batches name
  exact ⟨.unknown, board, session, s, serve_unbegun hrequest hnone, .unbegun hrequest hname, shows⟩

/-! ## Runs -/

/-- Every request that has nothing to do with cursors is a step of the board. -/
theorem Shows.follows (kept : terms.Kept)
    (shows : board.Shows terms session s) {request : Request}
    (hwalks : request.walks = false) :
    Follows terms board session request s := by
  cases hstore : request.store? with
  | some name =>
    cases hname : board.names name with
    | false => exact shows.follows_unnamed hstore hname
    | true =>
      cases shows with
      | gone left => cases (left.names name).symm.trans hname
      | there lists serves =>
        cases request
        all_goals
          simp only [Request.store?, Option.some.injEq, reduceCtorEq] at hstore
        all_goals
          subst hstore
        case share other => exact lists.follows_share serves hname other
        case release => exact lists.follows_release serves hname
        case get key =>
          obtain ⟨s', hserve, hshows⟩ := lists.follows_get kept serves hname key
          exact ⟨_, _, _, s', hserve, .get hname, hshows⟩
        case put key value =>
          exact lists.follows_changes serves hname rfl rfl (makes_change (kept.put key value))
        case remove key =>
          exact lists.follows_changes serves hname rfl rfl (makes_change (kept.delete key))
        case putAll entries =>
          exact lists.follows_changes serves hname rfl rfl (makes_commitAll kept _)
        case removeAll keys =>
          exact lists.follows_changes serves hname rfl rfl (makes_commitAll kept _)
        case flush => exact lists.follows_flush kept serves hname
        case close => exact lists.follows_close kept serves hname
        case beginBatch batch => exact lists.follows_begin serves hname batch
        case search => cases hwalks
  | none =>
    cases hbatch : request.batch? with
    | none =>
      cases request <;> simp [Request.store?, Request.batch?, Request.walks] at hstore hbatch hwalks
    | some name =>
      cases hpending : board.pending name with
      | none => exact shows.follows_unbegun hbatch hpending
      | some queue =>
        cases shows with
        | gone left => cases (left.pending name).symm.trans hpending
        | there lists serves =>
          obtain ⟨⟨id, batch⟩, hfind, -⟩ :=
            Option.map_eq_some_iff.1 ((lists.pending name).symm.trans hpending)
          cases request
          all_goals
            simp only [Request.batch?, Option.some.injEq, reduceCtorEq] at hbatch
          all_goals
            subst hbatch
          case queue mutation => exact lists.follows_queue serves hfind mutation
          case commitBatch => exact lists.follows_commit kept serves hfind
          case dropBatch => exact lists.follows_drop serves hfind

end Board

namespace Session

variable {σ H : Type} [Backend (StateM σ) H]

/-- A run of requests, each with its answer. -/
inductive Serves (session : Session (StateM σ) H) (s : σ) :
    List (Request × Answer) → Session (StateM σ) H → σ → Prop where
  | nil : Serves session s [] session s
  | snoc {middle after : Session (StateM σ) H} {s₁ s₂ : σ} {events : List (Request × Answer)}
      {request : Request} {answer : Answer} : Serves session s events middle s₁ →
      middle.serve request s₁ = ((answer, after), s₂) →
      Serves session s (events ++ [(request, answer)]) after s₂

/-- Anything can be asked for next. -/
theorem Serves.on {session later : Session (StateM σ) H} {s s' : σ}
    {events : List (Request × Answer)} (serves : session.Serves s events later s')
    (request : Request) :
    session.Serves s (events ++ [(request, (later.serve request s').1.1)])
      (later.serve request s').1.2 (later.serve request s').2 :=
  serves.snoc rfl

end Session

namespace Board

variable {σ H : Type} [Backend (StateM σ) H] {terms : Terms σ H} {board : Board}
  {session session' : Session (StateM σ) H} {s s' : σ} {events : List (Request × Answer)}

/-- The induction is on the run: what the board shows after the earlier requests, it shows after the
last one. -/
theorem Shows.run (kept : terms.Kept)
    (shows : board.Shows terms session s)
    (serves : session.Serves s events session' s')
    (hwalks : ∀ event ∈ events, event.1.walks = false) :
    ∃ board', board.Run events board' ∧
      board'.Shows terms session' s' := by
  induction serves with
  | nil => exact ⟨board, .nil, shows⟩
  | snoc _ hserve ih =>
    obtain ⟨middle, hrun, hshows⟩ := ih fun event hmem => hwalks event (List.mem_append_left _ hmem)
    obtain ⟨answer, after, session', s', hserve', hstep, hafter⟩ :=
      hshows.follows kept (hwalks _ (List.mem_append_right _ List.mem_cons_self))
    cases hserve.symm.trans hserve'
    exact ⟨after, hrun.snoc hstep, hafter⟩

/-- The board of a store that was just opened. -/
def opened (name : String) (plain : Plain) : Board where
  content := some plain
  names other := other = name
  pending _ := none

theorem shows_opened (kept : terms.Kept) (hfit : terms.fit s) {name : String}
    {store : Store (StateM σ) H}
    (hconnect :
      Session.connect {} name terms.config terms.selector s = ((.ok store, session), s')) :
    ∃ live, store.live = some live ∧
      (opened name (terms.content live.handle s')).Shows terms session s' := by
  have htidy : (Session.tidy { stores := Dictionary.empty.erase name } : StateM σ (Session _ H)) s =
      ({ stores := Dictionary.empty.erase name }, s) := rfl
  have hrun := (state_bind htidy).symm.trans hconnect
  rcases hstore : Store.connect terms.config terms.selector s with ⟨e | found, after⟩
  · cases (state_bind hstore).symm.trans hrun
  · cases (state_bind hstore).symm.trans hrun
    unfold Store.connect at hstore
    cases hvalid : terms.config.validate with
    | error fault =>
      rw [hvalid] at hstore
      cases hstore
    | ok _ =>
      rw [hvalid] at hstore
      rcases hselect : terms.selector.connect terms.config s with ⟨e | live, last⟩
      · cases (state_bind hselect).symm.trans hstore
      · cases (state_bind hselect).symm.trans hstore
        have hfind (known : String) : ((Dictionary.empty.erase name).insert name 0).find? known =
            if known = name then some 0 else none := by
          rw [Dictionary.find?_insert, Dictionary.find?_erase]
          simp
        refine ⟨live, rfl, .there ⟨rfl, rfl, ?_, ?_, ?_, fun _ => rfl⟩
          ⟨rfl, rfl, ?_, ?_, ?_, rfl⟩⟩
        · intro known id hknown
          rw [hfind] at hknown
          split at hknown
          · cases hknown
            rfl
          · cases hknown
        · intro known id batch hbatch
          cases hbatch
        · intro known
          rw [hfind]
          unfold opened
          by_cases hknown : known = name <;> simp [hknown]
        · intro hnone
          cases hnone
        · rintro _ ⟨⟩
          exact (kept.connect hfit hselect).2 live rfl
        · rintro ⟨⟩

end Board

namespace Session

variable {σ H : Type} [Backend (StateM σ) H] {terms : Terms σ H}
  {session session' : Session (StateM σ) H}
  {store : Store (StateM σ) H} {s₀ s s' : σ} {events : List (Request × Answer)} {name : String}

/-- Whatever is done with a store over handles that keep a map, and with any number of batches, is
a run of the board with the same answers, and every name of the store tells what the board tells. -/
theorem batches_isolated (kept : terms.Kept)
    (hfit : terms.fit s₀)
    (hconnect : Session.connect {} name terms.config terms.selector s₀ = ((.ok store, session), s))
    (serves : session.Serves s events session' s')
    (hwalks : ∀ event ∈ events, event.1.walks = false) :
    ∃ live board, store.live = some live ∧
      (Board.opened name (terms.content live.handle s)).Run events board ∧
      ∀ known, board.names known = true → ∀ key, ∃ s'',
        session'.serve (.get known key) s' = ((.found (board.answer key), session'), s'') := by
  obtain ⟨live, hlive, shows⟩ := Board.shows_opened kept hfit hconnect
  obtain ⟨board, hrun, hshows⟩ := shows.run kept serves hwalks
  refine ⟨live, board, hlive, hrun, fun known hknown key => ?_⟩
  cases hshows with
  | gone left => cases (left.names known).symm.trans hknown
  | there lists serves =>
    obtain ⟨s'', hserve, _⟩ := lists.follows_get kept serves hknown key
    exact ⟨s'', hserve⟩

end Session

/-! ## The engine in memory -/

namespace World

/-- What is known about the handles of an engine in memory that stands for both engines. -/
def memoryTerms (name : String) : Terms World WorldHandle where
  config := {}
  selector := ⟨⟨.native, connect name⟩, ⟨.portable, connect name⟩⟩
  content := memoryContent
  ready handle world := (∃ kind, handle = .memory name kind) ∧
    ∃ engine, world.engines.find? name = some (.memory engine)
  fit world := ∃ engine, world.engines.find? name = some (.memory engine)

variable {name : String} {world after : World} {engine : MemoryEngine}

theorem memoryContent_eq (h : world.engines.find? name = some (.memory engine))
    (kind : EngineKind) : memoryContent (.memory name kind) world = engine.content.find? := by
  simp only [memoryContent, h]

theorem find?_mutate (content : KeyMap Bytes) (mutation : Mutation) :
    (MemoryEngine.mutate content mutation).find? = Plain.change content.find? mutation := by
  funext key
  cases mutation with
  | put place value => exact KeyMap.find?_insert content place key value
  | delete place => exact KeyMap.find?_erase content place key

theorem find?_foldl_mutate (mutations : List Mutation) (content : KeyMap Bytes) :
    (mutations.foldl MemoryEngine.mutate content).find? =
      mutations.foldl Plain.change content.find? := by
  induction mutations generalizing content with
  | nil => rfl
  | cons mutation rest ih => rw [List.foldl_cons, ih, find?_mutate, List.foldl_cons]

/-- An action on the map of the engine changes what its handles hold accordingly. -/
theorem changes_memory {mutations : List Mutation}
    (action : MemoryEngine → Except Error Unit × MemoryEngine)
    (haction : ∀ engine, (action engine).2.content.find? =
      Plain.settled engine.content.find? mutations (action engine).1)
    {run : WorldHandle → StateM World (Except Error Unit × WorldHandle)}
    (hrun : ∀ kind, run (.memory name kind) = do
      let done ← onMemory name (.error .closed) action
      return (done, .memory name kind)) :
    (memoryTerms name).Changes mutations run := by
  rintro _ world ⟨⟨kind, rfl⟩, engine, hfind⟩
  obtain ⟨after, hmemory, hafter⟩ := onMemory_of_find? hfind (.error .closed) action
  refine ⟨(action engine).1, .memory name kind, after, ?_, ⟨⟨kind, rfl⟩, _, hafter⟩, ?_⟩
  · rw [hrun]
    exact state_bind hmemory
  · exact (memoryContent_eq hafter kind).trans
      ((haction engine).trans (by rw [← memoryContent_eq hfind kind]; rfl))

theorem fit_connect {outcome : Except Error WorldHandle}
    (hfind : world.engines.find? name = some (.memory engine))
    (hconnect : connect name {} world = (outcome, after)) :
    (∃ engine, after.engines.find? name = some (.memory engine)) ∧
      ∀ handle, outcome = .ok handle → ∃ kind, handle = .memory name kind := by
  obtain ⟨last, hmemory, hlast⟩ :=
    onMemory_of_find? hfind (.error .closed) MemoryEngine.connect
  have hget : (get : StateM World World) world = (world, world) := rfl
  have hrun := (state_bind hget).symm.trans hconnect
  rw [hfind] at hrun
  cases (state_bind hmemory).symm.trans hrun
  refine ⟨⟨_, hlast⟩, fun handle hok => ?_⟩
  cases hopen : engine.connect.1 with
  | error e =>
    rw [hopen] at hok
    cases hok
  | ok _ =>
    rw [hopen] at hok
    cases hok
    exact ⟨engine.kind, rfl⟩

theorem kept_memory (name : String) : (memoryTerms name).Kept where
  get := by
    rintro _ key world ⟨⟨kind, rfl⟩, engine, hfind⟩
    obtain ⟨after, hrun, hafter⟩ := onMemory_of_find? hfind (Except.error Error.closed)
      fun engine => (.ok (engine.get key), engine)
    refine ⟨after, ?_, ⟨⟨kind, rfl⟩, _, hafter⟩, ?_⟩
    · exact hrun.trans (by rw [show (memoryTerms name).content = memoryContent from rfl,
        memoryContent_eq hfind kind]; rfl)
    · exact (memoryContent_eq hafter kind).trans (memoryContent_eq hfind kind).symm
  put key value := by
    refine changes_memory (fun engine => (.ok (), engine.apply (.put key value)))
      (fun engine => ?_) fun _ => rfl
    exact find?_mutate engine.content (.put key value)
  delete key := by
    refine changes_memory (fun engine => (.ok (), engine.apply (.delete key)))
      (fun engine => ?_) fun _ => rfl
    exact find?_mutate engine.content (.delete key)
  write batch := by
    refine changes_memory (·.write batch) (fun engine => ?_) fun _ => rfl
    unfold MemoryEngine.write
    split
    · rfl
    · exact find?_foldl_mutate batch.toList engine.content
  connect := by
    rintro world outcome after ⟨engine, hfind⟩ hconnect
    rcases hfirst : connect name {} world with ⟨e | handle, middle⟩
    · obtain ⟨⟨engine', hfind'⟩, -⟩ := fit_connect hfind hfirst
      have hrun := (state_bind hfirst).symm.trans hconnect
      cases hclass : e.isIoClass with
      | false =>
        simp only [hclass] at hrun
        cases hrun
        exact ⟨⟨engine', hfind'⟩, fun _ heq => by cases heq⟩
      | true =>
        simp only [hclass] at hrun
        rcases hsecond : connect name {} middle with ⟨e' | handle, last⟩
        · obtain ⟨hlast, -⟩ := fit_connect hfind' hsecond
          cases (state_bind hsecond).symm.trans hrun
          exact ⟨hlast, fun _ heq => by cases heq⟩
        · obtain ⟨hlast, hhandle⟩ := fit_connect hfind' hsecond
          cases (state_bind hsecond).symm.trans hrun
          refine ⟨hlast, ?_⟩
          rintro _ ⟨⟩
          exact ⟨hhandle handle rfl, hlast⟩
    · obtain ⟨hlast, hhandle⟩ := fit_connect hfind hfirst
      cases (state_bind hfirst).symm.trans hconnect
      refine ⟨hlast, ?_⟩
      rintro _ ⟨⟩
      exact ⟨hhandle handle rfl, hlast⟩
  close := by
    rintro _ world result after ⟨⟨kind, rfl⟩, engine, hfind⟩ hclose
    obtain ⟨last, hrun, hlast⟩ := onMemory_of_find? hfind (.error .closed) MemoryEngine.close
    cases hrun.symm.trans hclose
    exact ⟨_, hlast⟩

end World

namespace Session

/-- A world with an engine in memory. -/
def plainWorld : World where
  engines := Dictionary.empty.insert "m" (.memory {})

/-- Two batches that were begun before a key was written directly, of which one is committed before
a flush and the other one after it. -/
theorem batches_isolated_memory :
    ∃ (session session' : Session (StateM World) WorldHandle) (world world' : World)
      (store : Store (StateM World) WorldHandle) (events : List (Request × Answer)),
      Session.connect {} "s" {} (World.memoryTerms "m").selector plainWorld =
        ((.ok store, session), world) ∧
      session.Serves world events session' world' ∧
      (events.map fun event => event.2 matches .done (.ok ())) =
        [true, true, false, false, false, true, true, true, false] ∧
      (events.getLast?.any fun event => event.2 matches .done (.error .staleHandle)) = true ∧
      ∃ live board, store.live = some live ∧
        (Board.opened "s" ((World.memoryTerms "m").content live.handle world)).Run events board ∧
        ∀ known, board.names known = true → ∀ key, ∃ world'',
          session'.serve (.get known key) world' =
            ((.found (board.answer key), session'), world'') := by
  let selector := (World.memoryTerms "m").selector
  let opened := Session.connect {} "s" {} selector plainWorld
  let store : Store (StateM World) WorldHandle :=
    { config := {}, selector, live := some ⟨.memory "m" .portable, .native⟩ }
  have hconnect : Session.connect {} "s" {} selector plainWorld =
      ((.ok store, opened.1.2), opened.2) := rfl
  have hfit : (World.memoryTerms "m").fit plainWorld := ⟨{}, rfl⟩
  have run := (Serves.nil : opened.1.2.Serves opened.2 [] _ _)
  have run := (run.on (.beginBatch "s" "a")).on (.beginBatch "s" "b")
  have run := run.on (.queue "a" (.put [1] [10]))
  have run := (run.on (.queue "b" (.delete [2]))).on (.queue "a" (.delete [2]))
  have run := ((run.on (.put "s" [2] [20])).on (.commitBatch "a")).on (.flush "s")
  have run := run.on (.commitBatch "b")
  refine ⟨_, _, _, _, _, _, hconnect, run, by decide +kernel, by decide +kernel, ?_⟩
  exact batches_isolated (World.kept_memory "m") hfit hconnect run (by simp [Request.walks])

end Session

end OrderedStore
