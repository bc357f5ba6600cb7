import OrderedStore.Proofs.Disk.Sound
import OrderedStore.Proofs.Store.Refusal
import OrderedStore.Proofs.Store.Requests

/-!
# Batches beside other writers

Any number of batches can be pending while a store is written to in other ways. To its users a store
is a map and some lists of queued mutations: only a commit that succeeds makes a list part of the
map, and then of the map as it is at that time.

Main definitions:

- `Terms.Kept`: handles that keep a map.
- `Board`: a store as its users see it, with its steps `Board.Step`.
- `Board.Shows`: a session that holds what a board shows.

Main statements: `Board.Serves.commit`, `Board.Serves.flush` and `Board.Serves.close` say what calls
on a store make of the board.
-/

namespace OrderedStore

/-! ## Handles that keep a map -/

/-- A map after changes that took effect if the result says so. -/
def Plain.settled (plain : Plain) (mutations : List Mutation) : Except Error Unit → Plain
  | .ok _ => mutations.foldl Plain.change plain
  | .error _ => plain

section

variable {σ H : Type}

/-- A store's configuration and engines, with what its handles hold and when they can be used. -/
structure Terms (σ H : Type) where
  config : Config
  selector : Selector (StateM σ) H
  content : H → σ → Plain
  /-- Whether a handle can be used. -/
  ready : H → σ → Prop
  /-- Whether a handle can be opened. -/
  fit : σ → Prop

namespace Terms

/-- An action that makes all changes in order, or fails without any. -/
def Changes (terms : Terms σ H) (mutations : List Mutation)
    (action : H → StateM σ (Except Error Unit × H)) : Prop :=
  ∀ handle s, terms.ready handle s → ∃ result handle' after,
    action handle s = ((result, handle'), after) ∧ terms.ready handle' after ∧
      terms.content handle' after = (terms.content handle s).settled mutations result

/-- The handles keep a map. A change, an opening and a closing may fail; a change that fails has no
effect. What a handle that was opened last holds is left open. -/
structure Kept [Backend (StateM σ) H] (terms : Terms σ H) : Prop where
  get : ∀ handle key s, terms.ready handle s → ∃ after,
    (Backend.get handle key : StateM σ _) s = (.ok (terms.content handle s key), after) ∧
      terms.ready handle after ∧ terms.content handle after = terms.content handle s
  put : ∀ key value, terms.Changes [.put key value] (Backend.put · key value)
  delete : ∀ key, terms.Changes [.delete key] (Backend.delete · key)
  write : ∀ batch : WriteBatch, terms.Changes batch.toList (Backend.write · batch)
  connect : ∀ {s outcome after}, terms.fit s →
    terms.selector.connect terms.config s = (outcome, after) →
    terms.fit after ∧ ∀ live, outcome = .ok live → terms.ready live.handle after
  close : ∀ {handle s result after}, terms.ready handle s →
    (Backend.close handle : StateM σ (Except Error Unit)) s = (result, after) → terms.fit after

end Terms

end

/-! ## Boards -/

/-- The mutations queued in a batch. -/
structure Queue where
  /-- Whether the handle is live under which the batch was begun. -/
  live : Bool
  mutations : List Mutation

/-- A store as its users see it. -/
structure Board where
  /-- What the live handle holds; `none` without a handle. -/
  content : Option Plain
  /-- The names of the store. -/
  names : String → Bool
  /-- The batches that are pending, by name. -/
  pending : String → Option Queue

namespace Board

/-- One change of the map. -/
def change (board : Board) (mutation : Mutation) : Board :=
  { board with content := board.content.map (Plain.change · mutation) }

/-- What a caller is told about a key. -/
def answer (board : Board) (key : Bytes) : Except Error (Option Bytes) :=
  match board.content with
  | some plain => .ok (plain key)
  | none => .error .closed

/-- What a name pends for is another queue, or nothing. -/
def put (board : Board) (name : String) (queue? : Option Queue) : Board :=
  { board with pending := fun other => if other = name then queue? else board.pending other }

/-- The store has a name, or has it no more. -/
def call (board : Board) (name : String) (known : Bool) : Board :=
  { board with names := fun other => if other = name then known else board.names other }

/-- The handle was given up, and perhaps another one was opened. -/
def renew (board : Board) (content : Option Plain) : Board :=
  { board with content, pending := fun name => (board.pending name).map ({ · with live := false }) }

end Board

namespace Session

/-- The store that a request is about, by name. -/
def Request.store? : Request → Option String
  | .share name _ | .release name | .get name _ | .put name _ _ | .remove name _ | .putAll name _
  | .removeAll name _ | .flush name | .close name | .beginBatch name _ | .search name _ _ =>
    some name
  | _ => none

/-- The batch that a request is about, by name. -/
def Request.batch? : Request → Option String
  | .queue name _ | .commitBatch name | .dropBatch name => some name
  | _ => none

/-- Whether a request has to do with a cursor. -/
def Request.walks : Request → Bool
  | .search .. | .hasNext _ | .nextEntry _ | .item _ | .removeCurrent _ | .dropCursor _ => true
  | _ => false

/-- The store that a request changes on its own, by name, and the changes in order. -/
def Request.changes? : Request → Option (String × List Mutation)
  | .put name key value => some (name, [.put key value])
  | .remove name key => some (name, [.delete key])
  | .putAll name entries => some (name, entries.map fun (key, value) => .put key value)
  | .removeAll name keys => some (name, keys.map .delete)
  | _ => none

end Session

open Session (Request Answer)

/-- What a request does to a board, and what is answered. -/
inductive Board.Step (board : Board) : Request → Answer → Board → Prop where
  | unnamed {request : Request} {name : String} : request.store? = some name →
      board.names name = false → Step board request .unknown board
  | unbegun {request : Request} {name : String} : request.batch? = some name →
      board.pending name = none → Step board request .unknown board
  | share {name other : String} : board.names name = true →
      Step board (.share name other) .named (board.call other true)
  | release {name : String} : board.names name = true →
      Step board (.release name) .named (board.call name false)
  | get {name : String} {key : Bytes} : board.names name = true →
      Step board (.get name key) (.found (board.answer key)) board
  /-- All changes of a request take effect, one after the other. -/
  | changed {request : Request} {name : String} {mutations : List Mutation} :
      request.changes? = some (name, mutations) → board.names name = true →
      board.content.isSome = true →
      Step board request (.done (.ok ())) (mutations.foldl Board.change board)
  | unchanged {request : Request} {name : String} {mutations : List Mutation} {e : Error} :
      request.changes? = some (name, mutations) → board.names name = true →
      Step board request (.done (.error e)) board
  | flush {name : String} {result : Except Error Unit} {content : Option Plain} :
      board.names name = true → result.isOk = content.isSome →
      Step board (.flush name) (.done result) (board.renew content)
  | close {name : String} {result : Except Error Unit} : board.names name = true →
      Step board (.close name) (.done result) (board.renew none)
  | begin {name batch : String} : board.names name = true → board.content.isSome = true →
      Step board (.beginBatch name batch) (.done (.ok ())) (board.put batch (some ⟨true, []⟩))
  | beginClosed {name batch : String} : board.names name = true → board.content = none →
      Step board (.beginBatch name batch) (.done (.error .closed)) board
  | queue {batch : String} {mutation : Mutation} {queue : Queue} :
      board.pending batch = some queue →
      Step board (.queue batch mutation) (.queued (queue.mutations.length + 1))
        (board.put batch (some { queue with mutations := queue.mutations ++ [mutation] }))
  | drop {batch : String} {queue : Queue} : board.pending batch = some queue →
      Step board (.dropBatch batch) .named (board.put batch none)
  /-- All queued mutations take effect, one after the other. -/
  | commit {batch : String} {queue : Queue} : board.pending batch = some queue →
      queue.live = true → Step board (.commitBatch batch) (.done (.ok ()))
        (queue.mutations.foldl Board.change (board.put batch none))
  | commitFailed {batch : String} {queue : Queue} {e : Error} :
      board.pending batch = some queue → queue.live = true →
      Step board (.commitBatch batch) (.done (.error (Batch.commitError e))) (board.put batch none)
  | commitStale {batch : String} {queue : Queue} : board.pending batch = some queue →
      queue.live = false →
      Step board (.commitBatch batch) (.done (.error .staleHandle)) (board.put batch none)

/-- What requests do to a board, one after the other, each with its answer. -/
inductive Board.Run (board : Board) : List (Request × Answer) → Board → Prop where
  | nil : Run board [] board
  | snoc {middle after : Board} {events : List (Request × Answer)} {request : Request}
      {answer : Answer} : Run board events middle → middle.Step request answer after →
      Run board (events ++ [(request, answer)]) after

namespace Board

theorem foldl_change (mutations : List Mutation) (board : Board) :
    mutations.foldl change board =
      { board with
        content := board.content.map fun plain => mutations.foldl Plain.change plain } := by
  induction mutations generalizing board with
  | nil => simp
  | cons mutation rest ih =>
    rw [List.foldl_cons, ih]
    simp [change, Function.comp_def]

end Board

/-! ## What a session shows -/

section

variable {σ H : Type} {terms : Terms σ H}

/-- A queue as the batch of a store shows it. -/
def Batch.queue (store : Store (StateM σ) H) (batch : Batch) : Queue :=
  ⟨store.isCurrent batch.generation, batch.pending.toList⟩

/-- A store as a board shows it. -/
structure Board.Serves (terms : Terms σ H) (board : Board) (store : Store (StateM σ) H) (s : σ) :
    Prop where
  config : store.config = terms.config
  selector : store.selector = terms.selector
  shut : store.closed = true → store.live = none
  ready : ∀ live, store.live = some live → terms.ready live.handle s
  fit : store.live = none → terms.fit s
  content : board.content = store.live.map fun live => terms.content live.handle s

/-- A session with one store, which a board shows. Batches of an earlier handle have an earlier
generation. -/
structure Board.Lists (board : Board) (session : Session (StateM σ) H)
    (store : Store (StateM σ) H) : Prop where
  shared : session.shared.entries = [(0, store)]
  cursors : session.cursors.entries = []
  stores : ∀ {name id}, session.stores.find? name = some id → id = 0
  batches : ∀ {name id batch}, session.batches.find? name = some (id, batch) → id = 0 ∧
    batch.generation ≤ store.generation ∧
    (store.live = none → batch.generation < store.generation)
  names : ∀ name, board.names name = (session.stores.find? name).isSome
  pending : ∀ name, board.pending name = (session.batches.find? name).map (·.2.queue store)

/-- A session whose store is gone, with everything that referred to it. -/
structure Board.Left (board : Board) (session : Session (StateM σ) H) : Prop where
  shared : session.shared.entries = []
  stores : ∀ name, session.stores.find? name = none
  batches : ∀ name, session.batches.find? name = none
  names : ∀ name, board.names name = false
  pending : ∀ name, board.pending name = none

/-- A session that holds what a board shows. -/
inductive Board.Shows (terms : Terms σ H) (board : Board) (session : Session (StateM σ) H) (s : σ) :
    Prop where
  | there {store : Store (StateM σ) H} : board.Lists session store →
      board.Serves terms store s → Shows terms board session s
  | gone : board.Left session → Shows terms board session s

/-! ## Looking up and giving names -/

namespace Board

variable {board board' : Board} {session : Session (StateM σ) H} {store store' : Store (StateM σ) H}
  {s s' : σ} {name : String}

theorem Lists.find_store (lists : board.Lists session store) :
    session.shared.find? 0 = some store := by
  unfold Dictionary.find?
  rw [lists.shared]
  rfl

/-- A name that is known refers to the store. -/
theorem Lists.store? (lists : board.Lists session store) (name : String) :
    session.store? name = if board.names name then some (0, store) else none := by
  unfold Session.store?
  rw [lists.names name]
  cases hname : session.stores.find? name with
  | none => rfl
  | some id =>
    obtain rfl := lists.stores hname
    simp only [lists.find_store]
    rfl

/-- A batch that is pending is one of the store. -/
theorem Lists.batch? (lists : board.Lists session store) {batch : Batch} {id : Nat}
    (hbatch : session.batches.find? name = some (id, batch)) :
    session.batch? name = some (0, batch, store) := by
  unfold Session.batch?
  obtain ⟨rfl, -⟩ := lists.batches hbatch
  simp only [hbatch, lists.find_store]
  rfl

/-- How far a call takes a store that keeps its handle, or stays without one. -/
structure Stays (store store' : Store (StateM σ) H) : Prop where
  generation : store'.generation = store.generation
  live : store'.live.isSome = store.live.isSome

theorem Stays.isCurrent (stays : Stays store store') (generation : Nat) :
    store'.isCurrent generation = store.isCurrent generation := by
  unfold Store.isCurrent
  rw [stays.generation, stays.live]

theorem shared_setStore (lists : board.Lists session store) :
    (session.setStore 0 store').shared.entries = [(0, store')] := by
  change (0, store') :: session.shared.entries.filter (·.1 ≠ 0) = _
  rw [lists.shared]
  rfl

theorem Lists.stays (lists : board.Lists session store) (stays : Stays store store')
    (hnames : board'.names = board.names) (hpending : board'.pending = board.pending) :
    board'.Lists (session.setStore 0 store') store' where
  shared := shared_setStore lists
  cursors := lists.cursors
  stores := lists.stores
  batches hbatch := by
    obtain ⟨hid, hle, hlt⟩ := lists.batches hbatch
    rw [stays.generation]
    refine ⟨hid, hle, fun hnone => hlt ?_⟩
    have hlive := stays.live
    rw [hnone] at hlive
    exact Option.isNone_iff_eq_none.1 (by simpa using hlive.symm)
  names name := by rw [hnames]; exact lists.names name
  pending name := by
    rw [hpending, lists.pending name]
    unfold Batch.queue
    simp only [stays.isCurrent]
    rfl

/-- A name that is given to the store or taken from it. -/
theorem Lists.called (lists : board.Lists session store) {stores : Dictionary String Nat}
    (other : String) (known : Bool)
    (hfind : ∀ name, stores.find? name =
      if name = other then (if known then some 0 else none) else session.stores.find? name) :
    (board.call other known).Lists { session with stores } store := by
  refine { lists with stores := fun {name id} hname => ?_, names := fun name => ?_ }
  · rw [hfind] at hname
    split at hname
    · cases known <;> cases hname
      rfl
    · exact lists.stores hname
  · simp only [call, hfind]
    split
    · cases known <;> rfl
    · exact lists.names name

/-- A batch that is put in the place of another, or taken away. -/
theorem Lists.batched (lists : board.Lists session store)
    {batches : Dictionary String (Nat × Batch)} (other : String) (batch? : Option Batch)
    (hfind : ∀ name, batches.find? name =
      if name = other then batch?.map (0, ·) else session.batches.find? name)
    (hbatch : ∀ batch, batch? = some batch → batch.generation ≤ store.generation ∧
      (store.live = none → batch.generation < store.generation)) :
    (board.put other (batch?.map (·.queue store))).Lists { session with batches } store := by
  refine { lists with batches := fun {name id batch} hname => ?_, pending := fun name => ?_ }
  · rw [hfind] at hname
    split at hname
    · obtain ⟨found, hfound, heq⟩ := Option.map_eq_some_iff.1 hname
      cases heq
      exact ⟨rfl, hbatch batch hfound⟩
    · exact lists.batches hname
  · simp only [put, hfind]
    split
    · cases batch? <;> rfl
    · exact lists.pending name

/-- Once the handle was given up, every batch is one of an earlier handle. -/
theorem Lists.renew (lists : board.Lists session store)
    (hgeneration : store'.generation = store.generation + store.live.isSome.toNat)
    (content? : Option Plain) :
    (board.renew content?).Lists (session.setStore 0 store') store' := by
  have hearlier {name id batch} (hbatch : session.batches.find? name = some (id, batch)) :
      batch.generation < store'.generation := by
    obtain ⟨-, hle, hlt⟩ := lists.batches hbatch
    cases hlive : store.live with
    | none =>
      have := hlt hlive
      omega
    | some live =>
      rw [hlive, Option.isSome_some, Bool.toNat_true] at hgeneration
      omega
  refine ⟨shared_setStore lists, lists.cursors, lists.stores, ?_, lists.names, ?_⟩
  · intro name id batch hbatch
    exact ⟨(lists.batches hbatch).1, Nat.le_of_lt (hearlier hbatch), fun _ => hearlier hbatch⟩
  · intro name
    change (board.pending name).map _ = (session.batches.find? name).map _
    rw [lists.pending name, Option.map_map]
    cases hbatch : session.batches.find? name with
    | none => rfl
    | some named =>
      obtain ⟨id, batch⟩ := named
      -- A queue that was live is not any more, and one that was not stays so.
      have hne : store'.generation ≠ batch.generation := Nat.ne_of_gt (hearlier hbatch)
      simp [Batch.queue, Store.isCurrent, hne]

/-- What nothing refers to is closed, and then all names are gone. -/
theorem Lists.tidy [Backend (StateM σ) H] (lists : board.Lists session store)
    (serves : board.Serves terms store s) :
    ∃ session' s', session.tidy s = (session', s') ∧
      board.Shows terms session' s' := by
  unfold Session.tidy
  rw [lists.shared]
  unfold Session.disposeOf
  cases hrefers : session.refersTo 0 with
  | true => exact ⟨session, s, rfl, .there lists serves⟩
  | false =>
    unfold Session.refersTo at hrefers
    simp only [Bool.or_eq_false_iff] at hrefers
    obtain ⟨⟨hstores, hbatches⟩, -⟩ := hrefers
    have hnone (name : String) : session.stores.find? name = none := by
      by_contra hsome
      obtain ⟨id, hid⟩ := Option.ne_none_iff_exists'.1 hsome
      obtain rfl := lists.stores hid
      have := List.any_eq_false.1 hstores _ (Dictionary.mem_of_find? hid)
      simp at this
    have hnobatch (name : String) : session.batches.find? name = none := by
      by_contra hsome
      obtain ⟨⟨id, batch⟩, hbatch⟩ := Option.ne_none_iff_exists'.1 hsome
      obtain ⟨rfl, -⟩ := lists.batches hbatch
      have := List.any_eq_false.1 hbatches _ (Dictionary.mem_of_find? hbatch)
      simp at this
    rcases hdispose : store.dispose s with ⟨_, after⟩
    refine ⟨_, after, state_bind hdispose, .gone ⟨?_, hnone, hnobatch, ?_, ?_⟩⟩
    · change session.shared.entries.filter (·.1 ≠ 0) = []
      rw [lists.shared]
      rfl
    · intro name
      rw [lists.names name, hnone name]
      rfl
    · intro name
      rw [lists.pending name, hnobatch name]
      rfl

/-! ## Changes through the handle -/

/-- The board after changes that took effect if the result says so. -/
def settled (board : Board) (mutations : List Mutation) (result : Except Error Unit) : Board :=
  { board with content := board.content.map (·.settled mutations result) }

theorem settled_ok (board : Board) (mutations : List Mutation) :
    board.settled mutations (.ok ()) = mutations.foldl change board :=
  (foldl_change mutations board).symm

theorem settled_error (board : Board) (mutations : List Mutation) (e : Error) :
    board.settled mutations (.error e) = board := by
  obtain ⟨content, names, pending⟩ := board
  cases content <;> rfl

/-- A call that makes changes, all or none, and none without a handle. -/
def Makes (terms : Terms σ H) (mutations : List Mutation)
    (action : Store (StateM σ) H → StateM σ (Except Error Unit × Store (StateM σ) H)) : Prop :=
  ∀ board store s, Serves terms board store s →
    ∃ result store' after, action store s = ((result, store'), after) ∧ Stays store store' ∧
      (board.settled mutations result).Serves terms store' after ∧
      (result = .ok () → board.content.isSome = true)

theorem Serves.unchanged (serves : board.Serves terms store s) (mutations : List Mutation)
    (e : Error) : (board.settled mutations (.error e)).Serves terms store s := by
  rw [settled_error]
  exact serves

theorem Serves.change (serves : board.Serves terms store s) {mutations : List Mutation}
    {action : H → StateM σ (Except Error Unit × H)} (changes : terms.Changes mutations action)
    {caller? : Option Nat} {live : Live H} (hlive : store.live = some live)
    (hcurrent : store.current caller? = .ok live) :
    ∃ result store' after, store.change caller? action s = ((result, store'), after) ∧
      Stays store store' ∧ (board.settled mutations result).Serves terms store' after := by
  obtain ⟨result, handle', after, haction, hready, hcontent⟩ :=
    changes live.handle s (serves.ready live hlive)
  refine ⟨result, { store with live := some { live with handle := handle' } }, after, ?_,
    ⟨rfl, by rw [hlive]; rfl⟩, serves.config, serves.selector, ?_, ?_, nofun, ?_⟩
  · simp only [Store.change, hcurrent]
    exact state_bind haction
  · intro hclosed
    rw [serves.shut hclosed] at hlive
    cases hlive
  · rintro _ ⟨⟩
    exact hready
  · rw [settled, serves.content, hlive]
    simp only [Option.map_some]
    rw [hcontent]

theorem makes_change {mutations : List Mutation} {action : H → StateM σ (Except Error Unit × H)}
    (changes : terms.Changes mutations action) :
    Makes terms mutations (·.change none action) := by
  intro board store s serves
  cases hlive : store.live with
  | none =>
    refine ⟨.error .closed, store, s, ?_, ⟨rfl, rfl⟩, serves.unchanged mutations .closed, nofun⟩
    simp only [Store.change, Store.current, hlive]
    rfl
  | some live =>
    have hcurrent : store.current none = .ok live := by simp [Store.current, hlive]
    obtain ⟨result, store', after, hrun, stays, hserves⟩ := serves.change changes hlive hcurrent
    refine ⟨result, store', after, hrun, stays, hserves, fun _ => ?_⟩
    rw [serves.content, hlive]
    rfl

variable [Backend (StateM σ) H]

/-- A commit under the live handle makes all its changes or none. -/
theorem Serves.commit (kept : terms.Kept) (serves : board.Serves terms store s) {batch : Batch}
    (hcurrent : store.isCurrent batch.generation = true) :
    ∃ result store' after,
      batch.commit store s = ((result.mapError Batch.commitError, store'), after) ∧
      Stays store store' ∧
      (board.settled batch.pending.toList result).Serves terms store' after := by
  obtain ⟨live, hlive, hcurrent⟩ := Store.current_of_isCurrent hcurrent
  obtain ⟨result, store', after, hrun, stays, hserves⟩ :=
    serves.change (kept.write batch.pending) hlive hcurrent
  exact ⟨result, store', after, state_bind hrun, stays, hserves⟩

theorem makes_commitAll (kept : terms.Kept) (mutations : List Mutation) :
    Makes terms mutations (·.commitAll mutations) := by
  intro board store s serves
  cases hlive : store.live with
  | none =>
    refine ⟨.error .closed, store, s, ?_, ⟨rfl, rfl⟩, serves.unchanged mutations .closed, nofun⟩
    simp only [Store.commitAll, Store.batch, Store.liveGeneration, hlive]
    rfl
  | some live =>
    -- All changes at once are the commit of a batch that is made for them.
    let batch : Batch := { generation := store.generation, pending := .ofList mutations }
    have hcurrent : store.isCurrent batch.generation = true := by
      simp [batch, Store.isCurrent, hlive]
    obtain ⟨result, store', after, hrun, stays, hserves⟩ := serves.commit kept hcurrent
    have hall : store.commitAll mutations = batch.commit store := by
      simp only [Store.commitAll, Store.batch, Store.liveGeneration, hlive]
      rfl
    have hcontent : board.content.isSome = true := by
      rw [serves.content, hlive]
      rfl
    have hmutations : batch.pending.toList = mutations := WriteBatch.toList_ofList mutations
    rw [hmutations] at hserves
    rw [← hall] at hrun
    cases result with
    | error e =>
      refine ⟨_, store', after, hrun, stays, ?_, fun _ => hcontent⟩
      rw [settled_error] at hserves
      exact hserves.unchanged mutations _
    | ok _ => exact ⟨_, store', after, hrun, stays, hserves, fun _ => hcontent⟩

/-! ## Giving the handle up -/

/-- An attempt to open another handle. -/
theorem Serves.reopened (kept : terms.Kept) (serves : board.Serves terms store s)
    {given : Store (StateM σ) H} (hconfig : given.config = terms.config)
    (hselector : given.selector = terms.selector) (hclosed : given.closed = false)
    (hlive : given.live = none) {middle : σ} (hfit : terms.fit middle) :
    ∃ outcome after content?, store.selector.connect store.config middle = (outcome, after) ∧
      (board.renew content?).Serves terms (given.reopened outcome).2 after ∧
      (given.reopened outcome).1.isOk = content?.isSome := by
  rw [serves.config, serves.selector]
  rcases hconnect : terms.selector.connect terms.config middle with ⟨e | live, after⟩
  · refine ⟨.error e, after, none, rfl, ⟨hconfig, hselector, fun _ => hlive, ?_, ?_, ?_⟩, rfl⟩
    · intro live heq
      cases hlive.symm.trans heq
    · exact fun _ => (kept.connect hfit hconnect).1
    · change none = given.live.map _
      rw [hlive]
      rfl
  · refine ⟨.ok live, after, some (terms.content live.handle after), rfl,
      ⟨hconfig, hselector, ?_, ?_, nofun, rfl⟩, rfl⟩
    · intro hshut
      cases hclosed.symm.trans hshut
    · rintro _ ⟨⟩
      exact (kept.connect hfit hconnect).2 live rfl

theorem Serves.flush (kept : terms.Kept) (serves : board.Serves terms store s) :
    ∃ result store' after content?, store.flush s = ((result, store'), after) ∧
      store'.generation = store.generation + store.live.isSome.toNat ∧
      (board.renew content?).Serves terms store' after ∧ result.isOk = content?.isSome := by
  have hkept (given : Store (StateM σ) H) (outcome : Except Error (Live H)) :
      (given.reopened outcome).2.generation = given.generation := by
    cases outcome <;> rfl
  cases hclosed : store.closed with
  | true =>
    have hlive := serves.shut hclosed
    refine ⟨.error .closed, store, s, none, ?_, by rw [hlive]; rfl, ?_, rfl⟩
    · unfold Store.flush
      rw [if_pos hclosed]
      rfl
    · refine ⟨serves.config, serves.selector, serves.shut, serves.ready, serves.fit, ?_⟩
      rw [hlive]
      rfl
  | false =>
    cases hlive : store.live with
    | none =>
      obtain ⟨outcome, after, content?, hconnect, hserves, hresult⟩ :=
        serves.reopened kept serves.config serves.selector hclosed hlive (serves.fit hlive)
      exact ⟨_, _, after, content?, Store.flush_of_none hclosed hlive hconnect, hkept store outcome,
        hserves, hresult⟩
    | some live =>
      rcases hclose : (Backend.close live.handle : StateM σ _) s with ⟨result, middle⟩
      have hfit := kept.close (serves.ready live hlive) hclose
      have hconfig : store.givenUp.config = terms.config := serves.config
      have hselector : store.givenUp.selector = terms.selector := serves.selector
      obtain ⟨outcome, after, content?, hconnect, hserves, hresult⟩ :=
        serves.reopened kept hconfig hselector hclosed rfl hfit
      exact ⟨_, _, after, content?, Store.flush_of_live hclosed hlive hclose hconnect,
        hkept store.givenUp outcome, hserves, hresult⟩

theorem Serves.close (kept : terms.Kept) (serves : board.Serves terms store s) :
    ∃ result store' after, store.close s = ((result, store'), after) ∧
      store'.generation = store.generation + store.live.isSome.toNat ∧
      (board.renew none).Serves terms store' after := by
  have hconfig := serves.config
  have hselector := serves.selector
  have hready := serves.ready
  have hfit := serves.fit
  obtain ⟨_, _, live?, generation, closed⟩ := store
  cases live? with
  | none =>
    exact ⟨.ok (), _, s, rfl, rfl, hconfig, hselector, fun _ => rfl, (fun _ heq => by cases heq),
      hfit, rfl⟩
  | some live =>
    rcases hclose : (Backend.close live.handle : StateM σ _) s with ⟨result, after⟩
    exact ⟨result.mapError (.resourceRelease Store.handleName), _, after, state_bind hclose, rfl,
      hconfig, hselector, fun _ => rfl, (fun _ heq => by cases heq),
      fun _ => kept.close (hready live rfl) hclose, rfl⟩

end Board

end

end OrderedStore
