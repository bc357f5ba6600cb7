import OrderedStore.Engine.Catalog
import OrderedStore.Proofs.Store.Refusal
import OrderedStore.Proofs.Store.Requests

/-!
# Batches, cursors and their handles

A store counts nothing but the handles it gave up, and hands that count out with each batch and
cursor. Here every handle has a number of its own, from 1 on in the order in which they were opened.
What a store hands out is tied to the handle that was live then: it does nothing under another.

Main definitions:

- `Desk`: a store with all that it handed out, each with the number of its handle.
- `Desk.Reaches`: what any requests lead to.

Main statement: `Desk.handed_out_tied`.
-/

namespace OrderedStore

variable {σ H : Type}

/-! ## Handing out -/

/-- A store with the batches and cursors that it handed out and that are still in use. -/
structure Desk (σ H : Type) where
  store : Store (StateM σ) H
  /-- The number of handles that were opened. -/
  opened : Nat := 1
  /-- The batches, each with the number of its handle. -/
  batches : List (Nat × Batch) := []
  /-- The cursors, each with the number of its handle. -/
  cursors : List (Nat × Cursor) := []

namespace Desk

/-- The number of the live handle. -/
def serving? (desk : Desk σ H) : Option Nat :=
  desk.store.live.map fun _ => desk.opened

/-- Makes a call that may change the store. -/
def onStore {α : Type} (desk : Desk σ H)
    (action : Store (StateM σ) H → StateM σ (α × Store (StateM σ) H)) : StateM σ (Desk σ H) := do
  let (_, store) ← action desk.store
  return { desk with store }

/-- Makes a call on a cursor. -/
def onCursor {α : Type} (desk : Desk σ H) (place : Nat)
    (action : Cursor → Store (StateM σ) H → StateM σ (α × Cursor × Store (StateM σ) H)) :
    StateM σ (Desk σ H) := do
  match desk.cursors[place]? with
  | none => return desk
  | some (number, cursor) => do
    let (_, cursor, store) ← action cursor desk.store
    return { desk with store, cursors := desk.cursors.set place (number, cursor) }

/-- Makes a call on a cursor that leaves the store as it is. -/
def moveCursor {α : Type} (desk : Desk σ H) (place : Nat)
    (move : Cursor → Store (StateM σ) H → StateM σ (α × Cursor)) : StateM σ (Desk σ H) :=
  desk.onCursor place fun cursor store => do
    let (result, cursor) ← move cursor store
    return (result, cursor, store)

/-! ## Numbers -/

/-- The numbers of objects that know a generation: one more than that, and at most the number of
handles opened. -/
def Tied {α : Type} (generation : α → Nat) (opened : Nat) (objects : List (Nat × α)) : Prop :=
  ∀ number object, (number, object) ∈ objects → number = generation object + 1 ∧ number ≤ opened

section

variable {α : Type} {generation : α → Nat} {opened number place : Nat} {object : α}
  {objects : List (Nat × α)}

theorem Tied.mono (tied : Tied generation opened objects) (more : Nat) :
    Tied generation (opened + more) objects := fun number object hmem =>
  (tied number object hmem).imp_right fun hle => Nat.le_add_right_of_le hle

theorem Tied.set (tied : Tied generation opened objects)
    (hobject : number = generation object + 1 ∧ number ≤ opened) :
    Tied generation opened (objects.set place (number, object)) := by
  intro number' object' hmem
  rcases List.mem_or_eq_of_mem_set hmem with hold | hnew
  · exact tied number' object' hold
  · cases hnew
    exact hobject

theorem Tied.cons (tied : Tied generation opened objects)
    (hobject : number = generation object + 1 ∧ number ≤ opened) :
    Tied generation opened ((number, object) :: objects) := by
  intro number' object' hmem
  rcases List.mem_cons.1 hmem with hnew | hold
  · cases hnew
    exact hobject
  · exact tied number' object' hold

theorem Tied.eraseIdx (tied : Tied generation opened objects) (place : Nat) :
    Tied generation opened (objects.eraseIdx place) := fun number object hmem =>
  tied number object (List.mem_of_mem_eraseIdx hmem)

end

/-- The numbers agree with the count of the handles that were given up. -/
structure Numbered (desk : Desk σ H) : Prop where
  opened : desk.store.generation + desk.store.live.isSome.toNat = desk.opened
  batches : Tied Batch.generation desk.opened desk.batches
  cursors : Tied Cursor.generation desk.opened desk.cursors

variable {desk after : Desk σ H} {s s' : σ}

theorem Numbered.advance (numbered : desk.Numbered) {store : Store (StateM σ) H} {opened : Nat}
    (advances : desk.store.Advances store opened) :
    Numbered { desk with store, opened := desk.opened + opened } where
  opened := by rw [advances.balance, numbered.opened]
  batches := numbered.batches.mono opened
  cursors := numbered.cursors.mono opened

/-- The live handle has the highest number, one above the count of those that were given up. -/
theorem Numbered.serving (numbered : desk.Numbered) {number : Nat}
    (hserving : desk.serving? = some number) :
    desk.store.liveGeneration = .ok desk.store.generation ∧
      number = desk.store.generation + 1 ∧ number = desk.opened := by
  have hopened := numbered.opened
  unfold serving? at hserving
  obtain ⟨live, hlive, rfl⟩ := Option.map_eq_some_iff.1 hserving
  rw [hlive] at hopened
  exact ⟨by simp [Store.liveGeneration, hlive], hopened.symm, rfl⟩

/-- A generation is the current one exactly if its handle is the live one. -/
theorem Numbered.isCurrent_iff {number generation : Nat} (numbered : desk.Numbered)
    (hnumber : number = generation + 1 ∧ number ≤ desk.opened) :
    desk.store.isCurrent generation = true ↔ desk.serving? = some number := by
  have hopened := numbered.opened
  obtain ⟨rfl, hle⟩ := hnumber
  unfold serving? Store.isCurrent
  cases hlive : desk.store.live with
  | none => simp
  | some live =>
    rw [hlive, Option.isSome_some, Bool.toNat_true] at hopened
    simp only [Option.isSome_some, Bool.true_and, decide_eq_true_eq, Option.map_some,
      Option.some.injEq]
    omega

/-- A handle that is not live any more was given up. -/
theorem Numbered.le_generation (numbered : desk.Numbered) {number : Nat}
    (hle : number ≤ desk.opened) (hgone : desk.serving? ≠ some number) :
    number ≤ desk.store.generation := by
  have hopened := numbered.opened
  unfold serving? at hgone
  cases hlive : desk.store.live with
  | none =>
    rw [hlive] at hopened
    exact Nat.le_trans hle (Nat.le_of_eq hopened.symm)
  | some live =>
    rw [hlive, Option.isSome_some, Bool.toNat_true] at hopened
    have hne : desk.opened ≠ number := by simpa [hlive] using hgone
    omega

/-- A handle that was given up is not live. -/
theorem Numbered.serving_ne (numbered : desk.Numbered) {number : Nat}
    (hle : number ≤ desk.store.generation) :
    desk.serving? ≠ some number := by
  intro hserving
  have := (numbered.serving hserving).2.1
  omega

/-- A new store has opened one handle. -/
theorem numbered_connect {config : Config} {selector : Selector (StateM σ) H}
    {store : Store (StateM σ) H} {s s' : σ}
    (hconnect : Store.connect config selector s = (.ok store, s')) :
    Numbered ({ store } : Desk σ H) := by
  unfold Store.connect at hconnect
  cases hvalid : config.validate with
  | error fault =>
    rw [hvalid] at hconnect
    cases hconnect
  | ok _ =>
    rw [hvalid] at hconnect
    rcases hselect : selector.connect config s with ⟨e | live, after⟩
    · cases (state_bind hselect).symm.trans hconnect
    · cases (state_bind hselect).symm.trans hconnect
      exact ⟨rfl, nofun, nofun⟩

theorem Numbered.onStore (numbered : desk.Numbered) {α : Type}
    {action : Store (StateM σ) H → StateM σ (α × Store (StateM σ) H)}
    (hrun : desk.onStore action s = (after, s'))
    (advances : desk.store.Advances (action desk.store s).1.2 0) :
    after.Numbered ∧ desk.store.generation ≤ after.store.generation := by
  cases hrun
  exact ⟨numbered.advance advances, advances.given_up⟩

theorem Numbered.onCursor (numbered : desk.Numbered) {α : Type} {place : Nat}
    {action : Cursor → Store (StateM σ) H → StateM σ (α × Cursor × Store (StateM σ) H)}
    (kept : ∀ cursor, ∃ result cursor' store' after,
      action cursor desk.store s = ((result, cursor', store'), after) ∧
      cursor'.generation = cursor.generation ∧ desk.store.Advances store' 0)
    (hrun : desk.onCursor place action s = (after, s')) :
    after.Numbered ∧ desk.store.generation ≤ after.store.generation := by
  unfold Desk.onCursor at hrun
  cases hplace : desk.cursors[place]? with
  | none =>
    rw [hplace] at hrun
    cases hrun
    exact ⟨numbered, Nat.le_refl _⟩
  | some entry =>
    obtain ⟨number, cursor⟩ := entry
    obtain ⟨result, cursor', store', s₁, haction, hgeneration, advances⟩ := kept cursor
    rw [hplace] at hrun
    cases (state_bind haction).symm.trans hrun
    have hcursor := numbered.cursors number cursor (List.mem_of_getElem? hplace)
    rw [← hgeneration] at hcursor
    have hnumbered := numbered.advance advances
    exact ⟨{ hnumbered with cursors := hnumbered.cursors.set hcursor }, advances.given_up⟩

theorem Numbered.moveCursor (numbered : desk.Numbered) {α : Type} {place : Nat}
    {move : Cursor → Store (StateM σ) H → StateM σ (α × Cursor)}
    (kept : ∀ cursor, ∃ result cursor' after,
      move cursor desk.store s = ((result, cursor'), after) ∧
      cursor'.generation = cursor.generation)
    (hrun : desk.moveCursor place move s = (after, s')) :
    after.Numbered ∧ desk.store.generation ≤ after.store.generation := by
  refine numbered.onCursor (fun cursor => ?_) hrun
  obtain ⟨result, cursor', s₁, hmove, hgeneration⟩ := kept cursor
  exact ⟨result, cursor', desk.store, s₁, state_bind hmove, hgeneration, .refl _⟩

/-! ## Requests -/

/-- What can be asked for. Batches and cursors are named by their place. -/
inductive Request where
  | get (key : Bytes)
  | put (key value : Bytes)
  | remove (key : Bytes)
  | putAll (entries : List (Bytes × Bytes))
  | removeAll (keys : List Bytes)
  | flush
  | close
  | batch
  | queue (place : Nat) (mutation : Mutation)
  | commit (place : Nat)
  | search (start : Bytes)
  | hasNext (place : Nat)
  | nextEntry (place : Nat)
  | item (place : Nat)
  | removeCurrent (place : Nat)

variable [Backend (StateM σ) H]

/-- Does what is asked for. What is handed out is tied to the live handle; a batch is used up by
committing it. -/
def perform (desk : Desk σ H) : Request → StateM σ (Desk σ H)
  | .get key => do
    let _ ← desk.store.get key
    return desk
  | .put key value => desk.onStore (·.put key value)
  | .remove key => desk.onStore (·.remove key)
  | .putAll entries => desk.onStore (·.putAll entries)
  | .removeAll keys => desk.onStore (·.removeAll keys)
  | .flush => do
    let (result, store) ← desk.store.flush
    return { desk with store, opened := desk.opened + result.isOk.toNat }
  | .close => desk.onStore (·.close)
  | .batch =>
    match desk.serving?, desk.store.batch with
    | some number, .ok batch => return { desk with batches := (number, batch) :: desk.batches }
    | _, _ => return desk
  | .queue place mutation =>
    match desk.batches[place]? with
    | none => return desk
    | some (number, batch) =>
      let batch := Session.queueing mutation batch
      return { desk with batches := desk.batches.set place (number, batch) }
  | .commit place =>
    match desk.batches[place]? with
    | none => return desk
    | some (_, batch) => { desk with batches := desk.batches.eraseIdx place }.onStore batch.commit
  | .search start =>
    match desk.serving?, desk.store.search start with
    | some number, .ok cursor => return { desk with cursors := (number, cursor) :: desk.cursors }
    | _, _ => return desk
  | .hasNext place => desk.moveCursor place Cursor.hasNext
  | .nextEntry place => desk.moveCursor place Cursor.nextEntry
  | .item place => desk.moveCursor place Cursor.item
  | .removeCurrent place => desk.onCursor place Cursor.removeCurrent

/-- What any requests lead to. -/
inductive Reaches (desk : Desk σ H) (s : σ) : Desk σ H → σ → Prop where
  | refl : Reaches desk s desk s
  | step {middle after : Desk σ H} {s₁ s₂ : σ} {request : Request} :
      Reaches desk s middle s₁ → middle.perform request s₁ = (after, s₂) → Reaches desk s after s₂

/-- Whatever is asked for, the numbers still agree, and no handle that was given up comes back. -/
theorem Numbered.perform (numbered : desk.Numbered) {request : Request}
    (hrun : desk.perform request s = (after, s')) :
    after.Numbered ∧ desk.store.generation ≤ after.store.generation := by
  cases request
  all_goals simp only [Desk.perform] at hrun
  case get key =>
    cases hrun
    exact ⟨numbered, Nat.le_refl _⟩
  case put key value => exact numbered.onStore hrun (Store.advances_change ..)
  case remove key => exact numbered.onStore hrun (Store.advances_change ..)
  case putAll entries => exact numbered.onStore hrun (Store.advances_commitAll ..)
  case removeAll keys => exact numbered.onStore hrun (Store.advances_commitAll ..)
  case flush =>
    obtain ⟨result, store', s₁, hflush, advances⟩ := desk.store.advances_flush s
    cases (state_bind hflush).symm.trans hrun
    exact ⟨numbered.advance advances, advances.given_up⟩
  case close => exact numbered.onStore hrun (Store.advances_close ..)
  case batch =>
    cases hserving : desk.serving? with
    | none =>
      rw [hserving] at hrun
      cases hrun
      exact ⟨numbered, Nat.le_refl _⟩
    | some number =>
      obtain ⟨hlive, hgeneration, hopened⟩ := numbered.serving hserving
      rw [hserving, Store.batch, hlive] at hrun
      cases hrun
      exact ⟨{ numbered with batches := numbered.batches.cons ⟨hgeneration, Nat.le_of_eq hopened⟩ },
        Nat.le_refl _⟩
  case queue place mutation =>
    cases hplace : desk.batches[place]? with
    | none =>
      rw [hplace] at hrun
      cases hrun
      exact ⟨numbered, Nat.le_refl _⟩
    | some entry =>
      obtain ⟨number, batch⟩ := entry
      rw [hplace] at hrun
      cases hrun
      have hbatch := numbered.batches number batch (List.mem_of_getElem? hplace)
      rw [← Session.queueing_generation batch mutation] at hbatch
      exact ⟨{ numbered with batches := numbered.batches.set hbatch }, Nat.le_refl _⟩
  case commit place =>
    cases hplace : desk.batches[place]? with
    | none =>
      rw [hplace] at hrun
      cases hrun
      exact ⟨numbered, Nat.le_refl _⟩
    | some entry =>
      rw [hplace] at hrun
      have hnumbered : Numbered { desk with batches := desk.batches.eraseIdx place } :=
        { numbered with batches := numbered.batches.eraseIdx place }
      exact hnumbered.onStore hrun (Store.advances_commit ..)
  case search start =>
    cases hserving : desk.serving? with
    | none =>
      rw [hserving] at hrun
      cases hrun
      exact ⟨numbered, Nat.le_refl _⟩
    | some number =>
      obtain ⟨hlive, hgeneration, hopened⟩ := numbered.serving hserving
      rw [hserving, Store.search, hlive] at hrun
      cases hrun
      exact ⟨{ numbered with cursors := numbered.cursors.cons ⟨hgeneration, Nat.le_of_eq hopened⟩ },
        Nat.le_refl _⟩
  case hasNext place => exact numbered.moveCursor (Cursor.hasNext_generation · desk.store s) hrun
  case nextEntry place =>
    exact numbered.moveCursor (Cursor.nextEntry_generation · desk.store s) hrun
  case item place => exact numbered.moveCursor (Cursor.item_generation · desk.store s) hrun
  case removeCurrent place =>
    exact numbered.onCursor (Cursor.removeCurrent_generation · desk.store s) hrun

/-- Anything can be asked for next. -/
theorem Reaches.on (reaches : Reaches desk s after s') (request : Request) :
    Reaches desk s (after.perform request s').1 (after.perform request s').2 :=
  reaches.step rfl

theorem Reaches.numbered (reaches : Reaches desk s after s') (numbered : desk.Numbered) :
    after.Numbered ∧ desk.store.generation ≤ after.store.generation := by
  induction reaches with
  | refl => exact ⟨numbered, Nat.le_refl _⟩
  | step _ hrun ih =>
    obtain ⟨hmiddle, hle⟩ := ih
    exact (hmiddle.perform hrun).imp_right fun hlater => Nat.le_trans hle hlater

end Desk

/-! ## What is tied to its handle -/

namespace Desk

variable [Backend (StateM σ) H] {desk : Desk σ H}

/-- Batches and cursors are tied to the handle that was live when they were handed out. Whatever was
done with a store, as long as that handle is the live one, no call on them is refused because of
the handle; otherwise every call is refused and reaches no handle, and that handle is never live
again. -/
theorem handed_out_tied {config : Config} {selector : Selector (StateM σ) H}
    {store : Store (StateM σ) H} {s₀ s₁ s : σ}
    (hconnect : Store.connect config selector s₀ = (.ok store, s₁))
    (reaches : Reaches { store } s₁ desk s) :
    (∀ number cursor, (number, cursor) ∈ desk.cursors →
      (desk.serving? = some number →
        (∀ live, desk.store.live = some live → Steady (σ := σ) live.handle) →
        cursor.Admitted desk.store) ∧
      (desk.serving? ≠ some number → cursor.Refused desk.store)) ∧
    (∀ number batch, (number, batch) ∈ desk.batches →
      (desk.serving? = some number →
        (∀ live, desk.store.live = some live → Steady (σ := σ) live.handle) →
        batch.Admitted desk.store) ∧
      (desk.serving? ≠ some number → batch.Refused desk.store)) ∧
    ∀ number ≤ desk.opened, desk.serving? ≠ some number →
      ∀ later s', Reaches desk s later s' → later.serving? ≠ some number := by
  have numbered := (reaches.numbered (numbered_connect hconnect)).1
  refine ⟨?_, ?_, ?_⟩
  · intro number cursor hmem
    have hcurrent := numbered.isCurrent_iff (numbered.cursors number cursor hmem)
    refine ⟨fun hserving => Cursor.admitted_of_current (hcurrent.2 hserving), fun hgone => ?_⟩
    exact Cursor.refused_of_stale (Bool.eq_false_iff.2 fun h => hgone (hcurrent.1 h))
  · intro number batch hmem
    have hcurrent := numbered.isCurrent_iff (numbered.batches number batch hmem)
    refine ⟨fun hserving => Batch.admitted_of_current (hcurrent.2 hserving), fun hgone => ?_⟩
    exact Batch.refused_of_stale (Bool.eq_false_iff.2 fun h => hgone (hcurrent.1 h))
  · intro number hle hgone later s' hlater
    obtain ⟨hnumbered, hgeneration⟩ := hlater.numbered numbered
    exact hnumbered.serving_ne (Nat.le_trans (numbered.le_generation hle hgone) hgeneration)

end Desk

namespace World

theorem onMemory_ne_stale {α : Type} (name : String)
    (action : MemoryEngine → Except Error α × MemoryEngine)
    (haction : ∀ engine, (action engine).1 ≠ .error .staleHandle) (world : World) :
    (onMemory name (.error .closed) action world).1 ≠ .error .staleHandle := by
  unfold onMemory
  split
  · exact haction _
  · exact nofun

/-- No handle of an engine in memory calls itself stale. -/
theorem steady_memory (name : String) (kind : EngineKind) :
    Steady (σ := World) (WorldHandle.memory name kind) where
  scan start limit world :=
    onMemory_ne_stale name (fun engine => (.ok (engine.scan start limit), engine))
      (fun _ => nofun) world
  delete key world :=
    onMemory_ne_stale name (fun engine => (.ok (), engine.apply (.delete key)))
      (fun _ => nofun) world
  write batch world := by
    refine onMemory_ne_stale name (·.write batch) (fun engine => ?_) world
    unfold MemoryEngine.write
    split <;> exact nofun

end World

namespace Desk

/-- A world in which the second attempt to open a handle fails for both engines. -/
def trialWorld : World where
  engines := (Dictionary.empty.insert "f" (.failing {})).insert "m"
    (.memory { failOpenAt := some 2 })

/-- The engines of that world. -/
def trialSelector : Selector (StateM World) WorldHandle where
  preferred := ⟨.portable, World.connect "m"⟩
  fallback := ⟨.native, World.connect "f"⟩

/-- A new store of that world. -/
def trialStore : Store (StateM World) WorldHandle where
  config := {}
  selector := trialSelector
  live := some ⟨.memory "m" .portable, .portable⟩

/-- A cursor with an entry in its buffer and a batch, after a flush that could not open another
handle and one that could, and a cursor that was handed out then. -/
theorem handed_out_tied_reopened :
    ∃ store middle desk world old new batch,
      Store.connect {} trialSelector trialWorld = (.ok store, middle) ∧
      Reaches { store } middle desk world ∧ desk.serving? = some 2 ∧
      (1, old) ∈ desk.cursors ∧ old.buffer = [([2], [20])] ∧ old.Refused desk.store ∧
      (1, batch) ∈ desk.batches ∧ batch.size = 1 ∧ batch.Refused desk.store ∧
      (2, new) ∈ desk.cursors ∧ new.Admitted desk.store := by
  let opened := (Store.connect {} trialSelector trialWorld).2
  have hconnect : Store.connect {} trialSelector trialWorld = (.ok trialStore, opened) := rfl
  have reaches : Reaches { store := trialStore } opened _ _ := Reaches.refl.on (.put [1] [10])
  have reaches := ((reaches.on (.put [2] [20])).on (.search [])).on .batch
  have reaches := ((reaches.on (.queue 0 (.put [3] [30]))).on (.nextEntry 0)).on .flush
  have reaches := (reaches.on .flush).on (.search [])
  let old : Cursor :=
    { generation := 0, pageSize := 256, buffer := [([2], [20])], resumeAt := some [2, 0]
      currentKey := some [1] }
  let new : Cursor := { generation := 1, pageSize := 256, resumeAt := some [] }
  let batch : Batch := { generation := 0, pending := ⟨[.put [3] [30]]⟩ }
  obtain ⟨desk, world, reaches, hserving, hcursors, hbatches, hlive⟩ : ∃ desk world,
      Reaches { store := trialStore } opened desk world ∧ desk.serving? = some 2 ∧
        desk.cursors = [(2, new), (1, old)] ∧ desk.batches = [(1, batch)] ∧
        desk.store.live.all (·.handle matches .memory ..) = true :=
    ⟨_, _, reaches, by decide +kernel, by decide +kernel, by decide +kernel, by decide +kernel⟩
  obtain ⟨cursors_tied, batches_tied, _⟩ := handed_out_tied hconnect reaches
  have hold : (1, old) ∈ desk.cursors := by simp [hcursors]
  have hnew : (2, new) ∈ desk.cursors := by simp [hcursors]
  have hbatch : (1, batch) ∈ desk.batches := by simp [hbatches]
  -- The second handle serves, so what was handed out under the first one is refused.
  have hgone : desk.serving? ≠ some 1 := by simp [hserving]
  refine ⟨_, _, desk, world, old, new, batch, hconnect, reaches, hserving, hold, rfl,
    (cursors_tied 1 old hold).2 hgone, hbatch, rfl, (batches_tied 1 batch hbatch).2 hgone, hnew,
    (cursors_tied 2 new hnew).1 hserving ?_⟩
  intro live heq
  rw [heq, Option.all_some] at hlive
  cases hhandle : live.handle with
  | memory name kind => exact World.steady_memory name kind
  | portable _ => simp [hhandle] at hlive

end Desk

end OrderedStore
