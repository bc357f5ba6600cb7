import OrderedStore.Proofs.Portable.HinderedRun
import OrderedStore.Proofs.Store.Contract

/-!
# Write-outs that are put off

A write-out that fails is tried again with the next change, or when the store is closed. Nothing is
lost by that, and nobody who reads or changes the store can tell.

Main definitions:

- `Portable.Due`: the stores whose memtable may be written out next.
- `Portable.Undisturbed`: an open store that shows nothing of failed write-outs.

Main statement: `Portable.run_undisturbed`.
-/

namespace OrderedStore.Portable

open Log (Operation told)
open TableStack (Volume)

variable {conduct : Conduct} {path : Path} {root : Location} {used : Nat} {ops : List Operation}
  {host after : Host} {store store' : Portable} {last : Machine} {events : List Event}

/-! ## Reading -/

/-- A scan gives a page of what the history left. -/
theorem Live.perform_scan (live : Live conduct path root used ops store host) (start : Bytes)
    (limit : Nat) :
    ∃ page, (store.scan start limit).perform host = (.ok page, host) ∧
      (Plain.after ops).Page start page ∧ page.length ≤ max limit 1 := by
  obtain ⟨logged, recent, served, tabled, volumes, servedVolumes, bytes, serving, _⟩ := live.parts
  have hopened := serving.tables.serves.opened
  obtain ⟨⟨rest, hrest⟩, hlength, hempty⟩ := Merge.scanOf_spec (ascending_sourcesWith hopened)
    (show 0 < max limit 1 by omega) (countFrom_lt_scanRounds start hopened)
  refine ⟨_, Portable.perform_scan live.sound hopened start limit, ⟨rest, ⟨?_, ?_⟩, ?_⟩, hlength⟩
  · rw [hrest]
    exact Merge.ascending_liveFrom _ _
  · intro key value
    rw [hrest, Merge.mem_liveFrom, serving.newest_eq, Log.after_eq_told, Option.join_eq_some_iff]
  · intro hnil
    have hlive := hempty hnil
    rw [hnil, List.nil_append] at hrest
    rw [hrest, hlive]

/-- Two stores answer reads alike, each on its host. -/
structure AnswersAlike (store : Portable) (host : Host) (store' : Portable) (after : Host) :
    Prop where
  get : ∀ key, ((store'.get key).perform after).1 = ((store.get key).perform host).1
  scan : ∀ start limit,
    ((store'.scan start limit).perform after).1 = ((store.scan start limit).perform host).1

/-- Memtable and tables make up the answers. -/
theorem answersAlike_of_eq {shelf : List (List TableEntry)}
    (memtable : store'.memtable = store.memtable)
    (tables : store'.tables.tables = store.tables.tables) (sound : host.Sound)
    (sound' : after.Sound) (opened : TableStack.Opened store.tables.tables host.view shelf)
    (opened' : TableStack.Opened store.tables.tables after.view shelf) :
    AnswersAlike store host store' after := by
  have hsources : store'.sourcesWith shelf = store.sourcesWith shelf := by
    rw [sourcesWith, memtable, sourcesWith]
  have hrounds : store'.scanRounds = store.scanRounds := by
    rw [scanRounds, TableStack.dataSize, memtable, tables, scanRounds, TableStack.dataSize]
  rw [← tables] at opened'
  refine ⟨fun key => ?_, fun start limit => ?_⟩
  · rw [Portable.perform_get sound opened, Portable.perform_get sound' opened', hsources]
  · rw [Portable.perform_scan sound opened, Portable.perform_scan sound' opened', hsources, hrounds]

/-- A write-out that failed leaves all answers as they were. -/
theorem WroteOut.answersAlike {e : Error} (wrote : WroteOut store root host (.error e) store' after)
    (sound : host.Sound) (sound' : after.Sound) : AnswersAlike store host store' after := by
  cases wrote with
  | failed hopened hopened' => exact answersAlike_of_eq rfl rfl sound sound' hopened hopened'

/-! ## Write-outs that are due -/

/-- The stores whose memtable a store may write out next: its own when it is closed, or its own with
a change that was logged. -/
inductive Due (store : Portable) (host : Host) : Portable → Host → Prop where
  | closing : Due store host store host
  | changing {change : Change} {logged : Portable} {between : Host} :
      Logged store change host logged between → Due store host logged between

/-- The number of the next table: no table file has it, and it is not the last one there is. -/
structure Unused (store : Portable) (root : Location) (host : Host) : Prop where
  file :
    host.view.file? (tablesPlace root ++ [TableStack.fileName store.tables.nextId.toNat]) = none
  next : (store.tables.nextId + 1).toNat = store.tables.nextId.toNat + 1

theorem Live.unused (live : Live conduct path root used ops store host)
    (small : used + 2 < UInt64.size) : Unused store root host := by
  obtain ⟨logged, recent, served, tabled, volumes, servedVolumes, bytes, serving, _⟩ := live.parts
  have hfresh := serving.fresh live.fit
  refine ⟨serving.holding.shelves.file?_eq_none hfresh.small hfresh.kept, ?_⟩
  -- No number was passed over by wrapping around, since there were fewer events than numbers.
  have hle := serving.next_le
  have hsize : UInt64.size = 2 ^ 64 := rfl
  rw [UInt64.toNat_add, UInt64.toNat_one]
  omega

/-- An open store that shows nothing of failed write-outs: it answers from the history, makes every
change that was logged, and writes the whole memtable out under an unused number whenever it can. -/
structure Undisturbed (root : Location) (ops : List Operation) (store : Portable) (host : Host) :
    Prop where
  get : ∀ key, (store.get key).perform host = (.ok (Plain.after ops key), host)
  scan : ∀ start limit, ∃ page, (store.scan start limit).perform host = (.ok page, host) ∧
    (Plain.after ops).Page start page ∧ page.length ≤ max limit 1
  changed : ∀ change result store' after,
    store.Hindered (store.change change) host (result, store') after →
      (result = .ok () ↔ Logs store change host)
  unused : ∀ due between, Due store host due between →
    due.tables.nextId = store.tables.nextId ∧ Unused due root between
  attempt : ∀ due between result store' after, Due store host due between →
    store.Hindered due.writeOut between (result, store') after →
      WroteOut due root between result store' after ∧
        ∀ e, result = .error e → AnswersAlike due between store' after

theorem Working.due (working : Working path root used ops store host) {due : Portable}
    {between : Host} (h : Due store host due between) :
    ∃ ops', Working path root used ops' due between ∧ due.log.handle = store.log.handle ∧
      due.tables = store.tables := by
  cases h with
  | closing => exact ⟨ops, working, rfl, rfl⟩
  | changing logged => exact ⟨_, working.logged logged⟩

theorem Working.undisturbed (working : Working path root used ops store host)
    (small : used + 2 < UInt64.size) : Undisturbed root ops store host where
  get := working.toLive.perform_get
  scan := working.toLive.perform_scan
  changed change result store' after run := by
    have hchanged := working.change_endured small run
    cases hchanged with
    | made hlogs _ _ => exact ⟨fun _ => hlogs, fun _ => rfl⟩
    | refused hnot _ => exact ⟨nofun, fun h => absurd h hnot⟩
  unused due between h := by
    obtain ⟨ops', hdue, _, htables⟩ := working.due h
    exact ⟨by rw [htables], hdue.toLive.unused small⟩
  attempt due between result store' after h run := by
    obtain ⟨ops', hdue, hhandle, _⟩ := working.due h
    rw [Hindered, ← hhandle] at run
    obtain ⟨hwrote, hworking, _⟩ := hdue.writeOut_endured small run
    refine ⟨hwrote, ?_⟩
    rintro e rfl
    exact hwrote.answersAlike hdue.sound hworking.sound

/-- Whatever write-outs fail in a run, it is explained by the changes that were acknowledged, over
all closings, also those that fail, and over all openings; and while a store is open it shows
nothing of them. The directory is empty at first, or missing under a path that does not go up.
Tables have 64-bit numbers, and an event uses up one of them at most. -/
theorem run_undisturbed {initial : Host} (vacant : Vacant initial path)
    (home : Ready initial path ∨ .up ∉ path.steps)
    (run : HinderedRun path (initial.view.ending path) ⟨initial, none⟩ events last)
    (few : events.length + 2 < UInt64.size) :
    ∃ ops, Recorded events ops ∧ ∀ store, last.store? = some store →
      Undisturbed (initial.view.ending path) ops store last.host := by
  obtain ⟨ops, hrecorded, hinUse⟩ := run.recorded vacant home few
  refine ⟨ops, hrecorded, ?_⟩
  obtain ⟨host, store?⟩ := last
  rintro store rfl
  exact Working.undisturbed hinUse few

/-- A change that could not be written out, a closing that failed for the same reason, and a change
after the next opening that could not be written out either. -/
theorem run_undisturbed_deferred :
    ∃ store host e,
      HinderedRun (.ofText "/") (Host.empty.view.ending (.ofText "/")) ⟨Host.empty, none⟩
        [.opened, .changed (.put [1] [2]) (.ok ()), .closed (.error e), .opened,
          .changed (.delete [1]) (.ok ())] ⟨host, some store⟩ ∧
      store.memtable.isEmpty = false ∧
      ∃ ops, Recorded [.opened, .changed (.put [1] [2]) (.ok ()), .closed (.error e), .opened,
          .changed (.delete [1]) (.ok ())] ops ∧
        ∀ current, some store = some current →
          Undisturbed (Host.empty.view.ending (.ofText "/")) ops current host := by
  obtain ⟨_, _, e, store, host, _, _, _, run, hempty⟩ := exists_deferred
  exact ⟨store, host, e, run, hempty, run_undisturbed (vacant_empty _)
    (Or.inl (by decide +kernel)) run (show 5 + 2 < UInt64.size by decide)⟩

end OrderedStore.Portable
