import OrderedStore.Proofs.Portable.Opening

/-!
# Sessions

A session opens a directory and serves requests, among them to close the store and to open it again.
While no call lacks room, its answers are those of a plain map, whenever memtables are written out
on the way.

Main statement: `Portable.session_answered`.
-/

namespace OrderedStore.Portable

open Log (Operation)

/-! ## Serving requests -/

/-- What a user asks an open store for. -/
inductive Request where
  | change (change : Change)
  | get (key : Bytes)
  /-- The store is closed and opened again. -/
  | reopen

/-- How many tables requests may write, each with a number of its own. -/
def Request.numbers : List Request → Nat
  | [] => 0
  | .change _ :: requests => numbers requests + 1
  | .get _ :: requests => numbers requests
  | .reopen :: requests => numbers requests + 2

/-- What a user is told. -/
inductive Answer where
  | changed (result : Except Error Unit)
  | found (result : Except Error (Option Bytes))
  | reopened
  /-- The store could not be closed or not be opened again. -/
  | lost (e : Error)

/-- Closes a store and opens another one. -/
def reopen (config : Config) (store : Portable) : Script (Except Error Portable) := do
  match ← store.close with
  | .error e => return .error e
  | .ok () => (start config).run

/-- Serves requests one after the other, as long as there is a store. -/
def serve (config : Config) : List Request → Portable → Script (List Answer)
  | [], _ => return []
  | .change change :: requests, store => do
    let (result, store) ← store.change change
    let answers ← serve config requests store
    return .changed result :: answers
  | .get key :: requests, store => do
    let result ← (store.get key).run
    let answers ← serve config requests store
    return .found result :: answers
  | .reopen :: requests, store => do
    match ← store.reopen config with
    | .error e => return [.lost e]
    | .ok store => do
      let answers ← serve config requests store
      return .reopened :: answers

/-- Opens a directory and serves requests. -/
def session (config : Config) (requests : List Request) : Script (Except Error (List Answer)) := do
  match ← (start config).run with
  | .error e => return .error e
  | .ok store => do
    let answers ← serve config requests store
    return .ok answers

/-! ## The plain map -/

/-- A plain map after a change. -/
def Change.onto (change : Change) (plain : Plain) : Plain :=
  change.mutations.foldl Plain.change plain

/-- The answers of a plain map that takes the changes that fit a frame of the log. -/
inductive Answered : Plain → List Request → List Answer → Prop where
  | done {plain : Plain} : Answered plain [] []
  | changed {plain : Plain} {change : Change} {requests : List Request} {answers : List Answer} :
      change.Fits → Answered (change.onto plain) requests answers →
      Answered plain (.change change :: requests) (.changed (.ok ()) :: answers)
  | refused {plain : Plain} {change : Change} {requests : List Request} {answers : List Answer}
      {e : Error} :
      ¬ change.Fits → Answered plain requests answers →
      Answered plain (.change change :: requests) (.changed (.error e) :: answers)
  | found {plain : Plain} {key : Bytes} {requests : List Request} {answers : List Answer} :
      Answered plain requests answers →
      Answered plain (.get key :: requests) (.found (.ok (plain key)) :: answers)
  | reopened {plain : Plain} {requests : List Request} {answers : List Answer} :
      Answered plain requests answers →
      Answered plain (.reopen :: requests) (.reopened :: answers)

/-! ## Answers of a session -/

variable {config : Config} {root : Location} {used : Nat} {ops : List Operation}
  {store : Portable} {host : Host} {requests : List Request}

/-- A path that leads to a directory now will be found to do so. -/
theorem ready_of_reaches (checked : Disk.checkPath config.path = .ok ())
    (reaches : host.view.Reaches config.path root) : Ready host config.path :=
  Disk.kind?_eq_directory_iff.2 ⟨checked, root, reaches.leads⟩

/-- A store is opened where it was closed, on the same history. -/
theorem ensures_reopen (live : Live .ample config.path root used ops store host)
    (checked : Disk.checkPath config.path = .ok ()) (small : used + 3 < UInt64.size) :
    (store.reopen config).Ensures .ample (fun _ => True)
      (fun result after => ∃ store, result = .ok store ∧
        Live .ample config.path root (used + 2) ops store after) host := by
  unfold reopen
  refine Script.Ensures.bind_of ((ensures_close live (Nat.lt_of_succ_lt small)).mono
    (fun _ _ => trivial) fun _ _ h => h) ?_
  -- With room for all calls the store is closed in good order, and its directory is there still.
  rintro result closed ⟨hrests, hunlocked, hreaches, rfl | ⟨excuse, _⟩⟩
  · have hready := ready_of_reaches checked hreaches
    refine Script.Ensures.mono (ensures_start hrests hunlocked small) (fun _ _ => trivial) ?_
    rintro (e | store) after hresult
    · rcases hresult.1 with excuse | unready
      · exact absurd excuse Conduct.not_excuse_ample
      · exact absurd hready unready
    · exact ⟨store, rfl, hresult.toLive⟩
  · exact absurd excuse Conduct.not_excuse_ample

/-- Every request moves the store on to the history that the plain map has taken. -/
theorem ensures_serve (live : Live .ample config.path root used ops store host)
    (checked : Disk.checkPath config.path = .ok ())
    (small : used + Request.numbers requests + 2 < UInt64.size) :
    (serve config requests store).Ensures .ample (fun _ => True)
      (fun answers _ => Answered (Plain.after ops) requests answers) host := by
  -- The history and the numbers in use grow from request to request.
  induction requests generalizing used ops store host with
  | nil => exact .done
  | cons request requests ih =>
    cases request with
    | change change =>
      rw [Request.numbers] at small
      unfold serve
      refine Script.Ensures.bind_of ((ensures_change live (by omega) change).mono
        (fun _ _ => trivial) fun _ _ h => h) ?_
      rintro ⟨result, store⟩ after (⟨rfl, hfits, hlive⟩ | ⟨cause, ⟨e, rfl⟩, hlive⟩)
      · refine Script.Ensures.bind_of (ih hlive (by omega)) ?_
        intro answers _ hanswers
        rw [change.after_append_operations] at hanswers
        exact .changed hfits hanswers
      · -- With room for all calls only the size of the change is left as a reason.
        refine Script.Ensures.bind_of (ih hlive (by omega)) ?_
        intro answers _ hanswers
        exact .refused (cause.resolve_left Conduct.not_excuse_ample) hanswers
    | get key =>
      rw [Request.numbers] at small
      unfold serve
      refine Action.Ensures.script_bind ((live.ensures_get key trivial).mono (fun _ h => h) ?_
        fun _ _ h => h.elim)
      rintro found _ ⟨rfl, rfl⟩
      refine Script.Ensures.bind_of (ih live (by omega)) ?_
      intro answers _ hanswers
      exact .found hanswers
    | reopen =>
      rw [Request.numbers] at small
      unfold serve
      refine Script.Ensures.bind_of (ensures_reopen live checked (by omega)) ?_
      rintro result after ⟨store, rfl, hlive⟩
      refine Script.Ensures.bind_of (ih hlive (by omega)) ?_
      intro answers _ hanswers
      exact .reopened hanswers

/-- A session on an empty directory answers as a plain map does. Tables have 64-bit numbers, so it
is asked that the changes and the reopenings do not use them up. Any number of keys may be read. -/
theorem session_answered {config : Config} {requests : List Request} {host : Host}
    (vacant : Vacant host config.path) (ready : Ready host config.path)
    (few : Request.numbers requests + 3 < UInt64.size)
    (room : (session config requests).FindsRoom host) :
    ∃ answers, ((session config requests).run host).1 = .ok answers ∧
      Answered Plain.empty requests answers := by
  have hrests : Rests .ample config.path (host.view.ending config.path) 0 [] host :=
    vacant.rests (Or.inl (Disk.reaches_of_kind? ready))
  have hchecked := (Disk.kind?_eq_directory_iff.1 ready).1
  have hsession : (session config requests).Ensures .ample (fun _ => True)
      (fun result _ => ∃ answers, result = .ok answers ∧ Answered Plain.empty requests answers)
      host := by
    unfold session
    have hstart := ensures_start hrests vacant.unlocked (by decide)
    refine Action.Ensures.script_bind (hstart.mono (fun _ _ => trivial) ?_ ?_)
    · intro store opened hbegun
      refine Script.Ensures.bind_of (ensures_serve hbegun.toLive hchecked (by omega)) ?_
      intro answers _ hanswers
      exact ⟨answers, rfl, hanswers⟩
    · rintro e after ⟨excuse | unready, _⟩
      · exact absurd excuse Conduct.not_excuse_ample
      · exact absurd ready unready
  exact hsession.run_of_findsRoom room

/-- With all limits zero every change is written out as a table of its own. -/
theorem session_answered_limitless :
    ∃ answers,
      ((session
        { path := .ofText "/", blockSize := 0, writeBufferSize := 0, syncPolicy := .everyEntries 0 }
        [.change (.put [1] [2]), .get [1], .reopen, .change (.delete [1]), .get [1]]).run
          Host.empty).1 = .ok answers ∧
      Answered Plain.empty
        [.change (.put [1] [2]), .get [1], .reopen, .change (.delete [1]), .get [1]] answers :=
  session_answered (vacant_empty _) (by decide +kernel) (by decide) (by decide +kernel)

end OrderedStore.Portable
