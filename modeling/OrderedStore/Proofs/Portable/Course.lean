import OrderedStore.Proofs.Engine.Refused
import OrderedStore.Proofs.Portable.Cursors
import OrderedStore.Proofs.Portable.Stowage
import OrderedStore.Proofs.TableStack.Recency

/-!
# What is logged is written out, and what is shown can be deleted

The log is the narrowest of the layers: what fits one of its frames fits a table, and an entry that
came in by a frame leaves room in another one for the deletion of its key. Stores are opened, used,
walked and lost in any order, and calls are refused; no layer refuses what another one has accepted.

Main definitions:

- `Portable.Course`, `Portable.Course.Step`: stores in use and cursors on them, and what may happen.
- `Portable.Scene.Provided`, `Portable.Course.Sustained`: the invariants.
- `Portable.Deletes`: a key whose deletion is not refused for its length.

Main statements: `Portable.Course.Sustained.step`, `Portable.tables_take_what_log_takes`.
-/

namespace OrderedStore.Portable

open Log (Fits Oversized)
open TableStack (TablesKept Stows Furnished Numbered WritesOut nameKind)

variable {may : Host → Call → Prop} {host after initial : Host} {root root' : Location}
  {count number : Nat} {config : Config} {key : Bytes} {store store' other : Portable}
  {front back live : List Portable} {result : Except Error Portable}

/-! ## Stores beside each other -/

/-- What happens in the directory of another store does not matter. -/
theorem Equipped.elsewhere (h : store.Equipped count host) (posted : Posted store root' host)
    (stows : Stows host.view (tablesPlace root) number after.view) (small : number < UInt64.size)
    (hne : root' ≠ root) : store.Equipped (count + 1) after := by
  refine ⟨h.carried, ?_⟩
  rw [View.ending_congr stows.base]
  refine h.shelved.elsewhere stows small fun heq => hne ?_
  rw [posted.reaches.eq_ending]
  exact (entry_inj heq).1

/-- Nor does it matter what happens to other files than tables. -/
theorem Equipped.calm (h : store.Equipped count host) (same : TablesKept host.view after.view)
    (enough : count + 2 < UInt64.size) : store.Equipped (count + 1) after := by
  refine ⟨h.carried, ?_⟩
  rw [View.ending_congr same.base]
  exact h.shelved.advances (same.advances _ _) enough

/-- A store is equipped after it was changed. -/
theorem Equipped.changed {change : Change} {done : Except Error Unit}
    (h : store.Equipped count host) (sound : host.Sound) (posted : Posted store root host)
    (enough : count + 2 < UInt64.size)
    (run : (store.change change).Endures may host (done, store') after) :
    Stows host.view (tablesPlace root) store.tables.nextId.toNat after.view ∧
      store'.Equipped (count + 1) after := by
  obtain ⟨hcarried, hshelved⟩ := h
  rw [← posted.reaches.eq_ending] at hshelved
  have hadvances := change_advances sound posted.log hshelved.home hcarried run
  obtain ⟨-, hkin⟩ := change_spent sound posted.log run
  refine ⟨hadvances.stows, run.gives (gives_change_carried hcarried _), ?_⟩
  rw [View.ending_congr hadvances.stows.base, hkin.directory, ← posted.reaches.eq_ending]
  exact hshelved.advances hadvances enough

/-- The deletion of a key that an open store knows of fits a frame. -/
theorem Equipped.fits_of_source {shelf : List (List TableEntry)} {value? : Option Bytes}
    (equipped : store.Equipped count host)
    (carried : ∀ source ∈ shelf, ∀ entry ∈ source, Log.Carried entry)
    (h : ∃ source ∈ store.sourcesWith shelf, (key, value?) ∈ source) :
    Fits (.one (.delete key)) := by
  obtain ⟨source, hsource, hmem⟩ := h
  rcases List.mem_cons.1 hsource with rfl | hshelf
  · exact (equipped.carried _ hmem).fits_delete
  · exact (carried source hshelf _ hmem).fits_delete

/-- A scene in which all tables came through the log, and so did what the open stores have in their
memtables. -/
structure Scene.Provided (scene : Scene) (count : Nat) : Prop where
  orderly : scene.Orderly
  furnished : Furnished scene.host.view count
  equipped : ∀ store ∈ scene.live, store.Equipped count scene.host

namespace Scene.Provided

/-- The tables of a store may change, those of the others stay. -/
theorem others (provided : Provided ⟨host, front ++ store :: back⟩ count)
    (posted : Posted store root host)
    (stows : Stows host.view (tablesPlace root) number after.view) (small : number < UInt64.size) :
    ∀ other ∈ front ++ back, other.Equipped (count + 1) after := by
  intro other hmem
  obtain ⟨_, root', hne, hother⟩ := provided.orderly.others posted hmem
  have hold := List.perm_middle.mem_iff.2 (List.mem_cons_of_mem store hmem)
  exact (provided.equipped other hold).elsewhere hother stows small hne

/-- Numbers may be left out. -/
theorem idle {scene : Scene} (provided : scene.Provided count) (enough : count + 2 < UInt64.size) :
    scene.Provided (count + 1) :=
  ⟨provided.orderly, provided.furnished.succ, fun store hmem =>
    (provided.equipped store hmem).calm (.refl _) enough⟩

/-- An opening leaves the tables of the open stores alone, whether it succeeds or not. -/
theorem started (provided : Provided ⟨host, live⟩ count) (enough : count + 2 < UInt64.size)
    (run : (start config).run.Endures Hampering host result after) :
    Furnished after.view (count + 1) ∧ (∀ other ∈ live, other.Equipped (count + 1) after) ∧
      ∀ store, result = .ok store → store.Equipped (count + 1) after := by
  have hsound := provided.orderly.sound
  by_cases hlatched : Latched host.view (host.view.ending config.path)
  · obtain ⟨⟨e, rfl⟩, hcalm⟩ := start_latched hsound rfl hlatched run
    have hsame := TablesKept.of_quiet (hcalm.quiet (host.view.ending config.path))
    refine ⟨(provided.furnished.congr hsame).succ, fun other hmem => ?_, fun _ heq => by cases heq⟩
    exact (provided.equipped other hmem).calm hsame enough
  have hunlocked := unlocked_of_not_latched hlatched
  obtain ⟨⟨number, hnumber, hstows⟩, hequipped⟩ :=
    start_stows hsound provided.furnished enough legible_hampering rfl hunlocked run
  have hsmall : number < UInt64.size := by omega
  refine ⟨provided.furnished.stows hstows hsmall hnumber, fun other hmem => ?_, hequipped⟩
  obtain ⟨root', hposted⟩ := provided.orderly.posted other hmem
  exact (provided.equipped other hmem).elsewhere hposted hstows hsmall (hposted.root_ne hunlocked)

/-- What happens to a scene puts one table at most somewhere, and this table came through the
log. -/
theorem step {scene scene' : Scene} (provided : scene.Provided count)
    (enough : count + 2 < UInt64.size) (h : scene.Step scene') : scene'.Provided (count + 1) := by
  have horderly := provided.orderly.step h
  cases h with
  | @opened config store host after live run =>
    obtain ⟨hfurnished, hothers, hstore⟩ := provided.started enough run
    exact ⟨horderly, hfurnished, List.forall_mem_cons.2 ⟨hstore store rfl, hothers⟩⟩
  | @failed config e host after live run =>
    obtain ⟨hfurnished, hothers, _⟩ := provided.started enough run
    exact ⟨horderly, hfurnished, hothers⟩
  | @changed change result store store' host after front back run =>
    obtain ⟨root, hposted⟩ := provided.orderly.posted store (by simp)
    have hequipped := provided.equipped store (by simp)
    obtain ⟨hstows, hstore⟩ := hequipped.changed provided.orderly.sound hposted enough run
    refine ⟨horderly, provided.furnished.stows hstows store.tables.nextId.toNat_lt
      hequipped.shelved.next, fun other hmem => ?_⟩
    rcases List.mem_cons.1 (List.perm_middle.mem_iff.1 hmem) with rfl | hmem
    · exact hstore
    · exact provided.others hposted hstows store.tables.nextId.toNat_lt other hmem
  | @got key result store host after live mem run =>
    obtain rfl := run.eq_of_kept (only_get_kept store key)
    exact provided.idle enough
  | @scanned start limit result store host after live mem run =>
    obtain rfl := run.eq_of_kept (only_scan_kept store start limit)
    exact provided.idle enough
  | @closed result store host after front back run =>
    obtain ⟨root, hposted⟩ := provided.orderly.posted store (by simp)
    obtain ⟨hcarried, hshelved⟩ := provided.equipped store (by simp)
    rw [← hposted.reaches.eq_ending] at hshelved
    have hstows := close_stows provided.orderly.sound hposted.log hshelved.home hcarried run
    exact ⟨horderly, provided.furnished.stows hstows store.tables.nextId.toNat_lt hshelved.next,
      provided.others hposted hstows store.tables.nextId.toNat_lt⟩
  | @dropped done store host after front back run =>
    have hsame := TablesKept.of_unlock provided.orderly.sound run
    refine ⟨horderly, (provided.furnished.congr hsame).succ, fun other hmem => ?_⟩
    have hold := List.perm_middle.mem_iff.2 (List.mem_cons_of_mem store hmem)
    exact (provided.equipped other hold).calm hsame enough

end Scene.Provided

/-- A key that a store shows: it is found, or a scan gives it. Calls may be refused meanwhile. -/
inductive Shows (store : Portable) (host : Host) (key : Bytes) : Prop where
  | get {value : Bytes} {after : Host} :
      (store.get key).run.Endures Hampering host (.ok (some value)) after → Shows store host key
  | scan {start value : Bytes} {limit : Nat} {page : List (Bytes × Bytes)} {after : Host} :
      (store.scan start limit).run.Endures Hampering host (.ok page) after → (key, value) ∈ page →
      Shows store host key

/-- The deletion of a key that an open store shows fits a frame. -/
theorem Scene.Provided.fits_of_shows {scene : Scene} (provided : scene.Provided count)
    (mem : store ∈ scene.live) (shows : store.Shows scene.host key) :
    Fits (.one (.delete key)) := by
  have hsound := provided.orderly.sound
  have hequipped := provided.equipped store mem
  obtain ⟨shelf, hopened, hcarried⟩ := hequipped.shelved.opened hsound provided.furnished
  cases shows with
  | get run => exact hequipped.fits_of_source hcarried (exists_of_get hsound hopened run)
  | scan run hmem =>
    exact hequipped.fits_of_source hcarried (exists_of_scan hsound hopened run hmem)

/-! ## Courses -/

/-- Open stores, and cursors that walk them. -/
structure Course where
  scene : Scene
  cursors : List Cursor

/-- No table is new in a view, and none has changed; some may be missing. -/
def Remaining (v w : View) : Prop :=
  ∀ place name id file, nameKind name = .table id → w.file? (place ++ [name]) = some file →
    ∃ owner, v.file? (place ++ [name]) = some (owner, file.2)

/-- What may happen to stores and cursors: a store is opened, used, closed or given up; all stores
and cursors are lost, and what the host holds then is anything but for the tables; a cursor is made,
moves on, or removes its entry from its store. -/
inductive Course.Step : Course → Course → Prop where
  | acted {scene scene' : Scene} {cursors : List Cursor} :
      scene.Step scene' → Step ⟨scene, cursors⟩ ⟨scene', cursors⟩
  | lost {host after : Host} {live : List Portable} {cursors : List Cursor} :
      after.Sound → Remaining host.view after.view → Step ⟨⟨host, live⟩, cursors⟩ ⟨⟨after, []⟩, []⟩
  | searched {scene : Scene} {owner : Store Script Portable} {start : Bytes} {cursor : Cursor}
      {cursors : List Cursor} :
      owner.search start = .ok cursor → Step ⟨scene, cursors⟩ ⟨scene, cursor :: cursors⟩
  | looked {owner : Store Script Portable} {result : Except Error Bool} {cursor cursor' : Cursor}
      {host after : Host} {live : List Portable} {front back : List Cursor} :
      (∀ handle ∈ owner.live, handle.handle ∈ live) →
      (cursor.hasNext owner).Endures Hampering host (result, cursor') after →
      Step ⟨⟨host, live⟩, front ++ cursor :: back⟩ ⟨⟨after, live⟩, front ++ cursor' :: back⟩
  | walked {owner : Store Script Portable} {result : Except Error (Bytes × Bytes)}
      {cursor cursor' : Cursor} {host after : Host} {live : List Portable}
      {front back : List Cursor} :
      (∀ handle ∈ owner.live, handle.handle ∈ live) →
      (cursor.nextEntry owner).Endures Hampering host (result, cursor') after →
      Step ⟨⟨host, live⟩, front ++ cursor :: back⟩ ⟨⟨after, live⟩, front ++ cursor' :: back⟩
  | removed {owner owner' : Store Script Portable} {store store' : Portable} {kind : EngineKind}
      {result : Except Error Unit} {cursor cursor' : Cursor} {host after : Host}
      {before behind : List Portable} {front back : List Cursor} :
      owner.live = some ⟨store, kind⟩ → owner'.live = some ⟨store', kind⟩ →
      (cursor.removeCurrent owner).Endures Hampering host (result, cursor', owner') after →
      Step ⟨⟨host, before ++ store :: behind⟩, front ++ cursor :: back⟩
        ⟨⟨after, before ++ store' :: behind⟩, front ++ cursor' :: back⟩

/-- What comes about from a host without open stores in so many steps. -/
inductive Course.From (initial : Host) : Nat → Course → Prop where
  | begun : From initial 0 ⟨⟨initial, []⟩, []⟩
  | step {count : Nat} {course course' : Course} :
      From initial count course → course.Step course' → From initial (count + 1) course'

/-- All tables, memtables and cursors have what came through the log. -/
structure Course.Sustained (course : Course) (count : Nat) : Prop where
  provided : course.scene.Provided count
  fits : ∀ cursor ∈ course.cursors, ∀ key, cursor.Has key → Fits (.one (.delete key))

namespace Course.Sustained

variable {cursor cursor' : Cursor} {cursors before behind : List Cursor}

theorem begun (sound : initial.Sound) (vacant : ∀ dir id, ¬ Numbered initial.view dir id) :
    Sustained ⟨⟨initial, []⟩, []⟩ 0 := by
  refine ⟨⟨.begun sound, ?_, by simp⟩, by simp⟩
  intro place name id file hkind hfile
  exact absurd ⟨name, hkind, by rw [hfile]; rfl⟩ (vacant place id)

/-- Cursors that have moved on. -/
theorem moved {host : Host} (sustained : Sustained ⟨⟨host, live⟩, before ++ cursor :: behind⟩ count)
    {owner : Store Script Portable} (owns : ∀ handle ∈ owner.live, handle.handle ∈ live)
    (keys : ∀ key, cursor'.Has key → cursor.Has key ∨ Cursor.Shown Hampering host owner key) :
    ∀ other ∈ before ++ cursor' :: behind, ∀ key, other.Has key → Fits (.one (.delete key)) := by
  intro other hmem key hkey
  rcases List.mem_cons.1 (List.perm_middle.mem_iff.1 hmem) with rfl | hmem
  · rcases keys key hkey with hold | ⟨handle, hhandle, _, _, _, _, hscan, hpage⟩
    · exact sustained.fits cursor (by simp) key hold
    · exact sustained.provided.fits_of_shows (owns handle hhandle) (.scan hscan hpage)
  · exact sustained.fits other (List.perm_middle.mem_iff.2 (List.mem_cons_of_mem _ hmem)) key hkey

theorem step {course course' : Course} (sustained : course.Sustained count)
    (enough : count + 2 < UInt64.size) (h : course.Step course') :
    course'.Sustained (count + 1) := by
  cases h with
  | acted hstep => exact ⟨sustained.provided.step enough hstep, sustained.fits⟩
  | @lost host after live cursors hsound hremaining =>
    refine ⟨⟨.begun hsound, ?_, by simp⟩, by simp⟩
    intro place name id file hkind hfile
    obtain ⟨owner, hold⟩ := hremaining place name id file hkind hfile
    exact sustained.provided.furnished.succ place name id (owner, file.2) hkind hold
  | @searched scene owner start cursor cursors hsearch =>
    exact ⟨sustained.provided.idle enough, List.forall_mem_cons.2
      ⟨fun key hkey => absurd hkey (Cursor.not_has_of_search hsearch key), sustained.fits⟩⟩
  | @looked owner result cursor cursor' host after live front back howns run =>
    obtain ⟨rfl, hkeys⟩ := Cursor.hasNext_endured run
    exact ⟨sustained.provided.idle enough, sustained.moved howns hkeys⟩
  | @walked owner result cursor cursor' host after live front back howns run =>
    obtain ⟨rfl, hkeys⟩ := Cursor.nextEntry_endured run
    exact ⟨sustained.provided.idle enough, sustained.moved howns hkeys⟩
  | @removed owner owner' store store' kind result cursor cursor' host after before behind front
      back hlive hlive' run =>
    obtain ⟨hkeys, hdone⟩ := Cursor.removeCurrent_endured run
    have howns : ∀ handle ∈ owner.live, handle.handle ∈ before ++ store :: behind := by
      rintro handle hhandle
      cases hlive.symm.trans hhandle
      simp
    refine ⟨?_, sustained.moved howns fun key hkey => Or.inl (hkeys key hkey)⟩
    rcases hdone with ⟨rfl, rfl⟩ | ⟨handle, hhandle, key, deleted, hdelete, rfl⟩
    · cases hlive.symm.trans hlive'
      exact sustained.provided.idle enough
    · cases hlive.symm.trans hhandle
      cases hlive'
      have hchange : (store.change (.delete key)).Endures Hampering host (result, store') after :=
        hdelete
      exact sustained.provided.step enough (.changed hchange)

theorem run {course : Course} (sound : initial.Sound)
    (vacant : ∀ dir id, ¬ Numbered initial.view dir id) (few : count + 1 < UInt64.size)
    (run : Course.From initial count course) : course.Sustained count := by
  induction run with
  | begun => exact begun sound vacant
  | step _ hstep ih => exact (ih (Nat.lt_of_succ_lt few)).step few hstep

end Course.Sustained

/-! ## Deletions -/

theorem gives_delete_of_fits (store : Portable) (fits : Fits (.one (.delete key))) :
    (store.delete key).Gives (fun _ => True) fun found =>
      ∀ e, found.1 = .error e → ¬ Oversized e := by
  refine Script.Gives.bind (Log.gives_append_of_fits store.log fits) ?_
  rintro ⟨e | lsn, log⟩ hlogged
  · rintro _ ⟨rfl⟩
    exact hlogged e rfl
  · refine Script.Gives.bind (Script.gives_any _) fun _ _ => ?_
    rintro _ ⟨⟩

/-- A handle that may not be used is not refused for a length. -/
theorem not_oversized_of_current {owner : Store Script Portable} {generation? : Option Nat}
    {e : Error} (h : owner.current generation? = .error e) : ¬ Oversized e := by
  unfold Store.current at h
  split at h
  · cases h
  · cases h
    exact id
  · split at h
    · cases h
    · cases h
      exact id
  · cases h
    exact id

section Removing

variable {cursor : Cursor} {owner : Store Script Portable}

theorem gives_removeCurrent (fits : ∀ key ∈ cursor.currentKey, Fits (.one (.delete key))) :
    (cursor.removeCurrent owner).Gives (fun _ => True) fun found =>
      ∀ e, found.1 = .error e → ¬ Oversized e := by
  unfold Cursor.removeCurrent
  split
  · rintro _ ⟨rfl⟩
    exact id
  split
  · rintro _ ⟨rfl⟩
    exact id
  rename_i key hcurrent
  have hchange : (owner.change (some cursor.generation) (Backend.delete · key)).Gives
      (fun _ => True) fun found => ∀ e, found.1 = .error e → ¬ Oversized e := by
    unfold Store.change
    split
    · rename_i e hcurrent
      rintro _ ⟨rfl⟩
      exact not_oversized_of_current hcurrent
    · rename_i handle _
      exact Script.Gives.bind (gives_delete_of_fits handle.handle (fits key hcurrent))
        fun _ hdeleted => hdeleted
  refine Script.Gives.bind hchange ?_
  rintro ⟨e | done, changed⟩ hdone
  · rintro _ ⟨rfl⟩
    exact hdone e rfl
  · rintro _ ⟨⟩

/-- With room for all calls a cursor removes its entry. -/
theorem ensures_removeCurrent {kind : EngineKind} (live : owner.live = some ⟨store, kind⟩)
    (generation : cursor.generation = owner.generation)
    (opens : host.disk.OpensFile store.log.handle) (current : cursor.currentKey = some key)
    (fits : Fits (.one (.delete key))) :
    (cursor.removeCurrent owner).Ensures .ample (fun _ => True) (fun found _ => found.1 = .ok ())
      host := by
  have hfresh : cursor.isStale owner = false := by
    simp only [Cursor.isStale, Store.isCurrent, live, generation, Option.isSome_some, decide_true,
      Bool.and_self, Bool.not_true]
  have hcurrent : owner.current (some cursor.generation) = .ok ⟨store, kind⟩ := by
    simp only [Store.current, live, generation, if_true]
  have hchange : (owner.change (some cursor.generation) (Backend.delete · key)).Ensures .ample
      (fun _ => True) (fun found _ => found.1 = .ok ()) host := by
    simp only [Store.change, hcurrent]
    exact Script.Ensures.bind_of (ensures_commit_open opens fits) fun _ _ hdone => hdone
  unfold Cursor.removeCurrent
  simp only [hfresh, current]
  refine Script.Ensures.bind_of hchange ?_
  rintro ⟨done, changed⟩ _ rfl
  rfl

end Removing

/-- A key whose deletion is not refused for its length: its frame can be made, the deletion succeeds
as long as the files of the host have room for it, and where it fails, whatever calls are refused,
this has another reason. -/
structure Deletes (store : Portable) (host : Host) (key : Bytes) : Prop where
  frame : ∀ lsn timestamp, ∃ frame,
    Log.Frame.encode ⟨lsn, .one (.delete key), timestamp⟩ = .ok frame
  done : (store.delete key).FindsRoom host → ((store.delete key).run host).1.1 = .ok ()
  unrefused : ∀ {may result store' after},
    (store.delete key).Endures may host (result, store') after →
      ∀ e, result = .error e → ¬ Oversized e

/-- The same of a cursor that removes its entry from its store, if it has one. -/
structure Removes (owner : Store Script Portable) (host : Host) (cursor : Cursor) : Prop where
  frame : ∀ key ∈ cursor.currentKey, ∀ lsn timestamp, ∃ frame,
    Log.Frame.encode ⟨lsn, .one (.delete key), timestamp⟩ = .ok frame
  done : cursor.currentKey.isSome → (cursor.removeCurrent owner).FindsRoom host →
    ((cursor.removeCurrent owner).run host).1.1 = .ok ()
  unrefused : ∀ {may result cursor' owner' after},
    (cursor.removeCurrent owner).Endures may host (result, cursor', owner') after →
      ∀ e, result = .error e → ¬ Oversized e

theorem exists_frame (fits : Fits (.one (.delete key))) (lsn timestamp : UInt64) :
    ∃ frame, Log.Frame.encode ⟨lsn, .one (.delete key), timestamp⟩ = .ok frame :=
  ⟨_, if_neg (Nat.not_lt.2 fits)⟩

theorem Posted.opensFile (posted : Posted store root host) (sound : host.Sound) :
    host.disk.OpensFile store.log.handle := by
  obtain ⟨bytes, hfile⟩ := posted.log
  obtain ⟨content, hnode, -⟩ := Disk.file?_eq_some_iff.1 hfile
  exact Disk.opensFile_of_node? sound.disk.namesBounded hnode

theorem deletes_of_fits (opens : host.disk.OpensFile store.log.handle)
    (fits : Fits (.one (.delete key))) : store.Deletes host key where
  frame := exists_frame fits
  done := (ensures_commit_open opens fits).run_of_findsRoom
  unrefused run := run.gives (gives_delete_of_fits store fits)

theorem removes_of_fits {cursor : Cursor} {owner : Store Script Portable} {kind : EngineKind}
    (live : owner.live = some ⟨store, kind⟩) (generation : cursor.generation = owner.generation)
    (opens : host.disk.OpensFile store.log.handle)
    (fits : ∀ key ∈ cursor.currentKey, Fits (.one (.delete key))) : Removes owner host cursor where
  frame key hcurrent := exists_frame (fits key hcurrent)
  done hsome room := by
    obtain ⟨key, hcurrent⟩ := Option.isSome_iff_exists.1 hsome
    exact (ensures_removeCurrent live generation opens hcurrent
      (fits key hcurrent)).run_of_findsRoom room
  unrefused run := run.gives (gives_removeCurrent fits)

/-- What came in through the log does not fail anywhere behind it.

Every memtable that is replayed from a log, and every memtable of an open store, is written out as a
table unless a call of the write-out is refused, whatever the log holds and whatever is done to the
host. And on a
host that had no tables to begin with, every key that an open store shows and every key at which a
cursor stands can be deleted. Tables have 64-bit numbers, so it is asked that there were fewer steps
before. -/
theorem tables_take_what_log_takes :
    (∀ {may host after path reporting memtable},
      (replay path reporting).run.Endures may host (.ok memtable) after → WritesOut memtable) ∧
    (∀ {may store host}, Reached may store host → WritesOut store.memtable) ∧
    ∀ {initial count course}, initial.Sound → (∀ dir id, ¬ Numbered initial.view dir id) →
      Course.From initial count course → count + 1 < UInt64.size →
      (∀ store ∈ course.scene.live, WritesOut store.memtable ∧
        ∀ key, store.Shows course.scene.host key → store.Deletes course.scene.host key) ∧
      ∀ cursor ∈ course.cursors, ∀ owner store kind, owner.live = some ⟨store, kind⟩ →
        store ∈ course.scene.live → cursor.generation = owner.generation →
        Removes owner course.scene.host cursor := by
  refine ⟨fun run => TableStack.writesOut (carried_of_replay run).wellFormed,
    fun reached => TableStack.writesOut reached.carried.wellFormed, ?_⟩
  intro initial count course sound vacant run few
  have hsustained := Course.Sustained.run sound vacant few run
  obtain ⟨horderly, hfurnished, hequipped⟩ := hsustained.provided
  have hopens : ∀ store ∈ course.scene.live, course.scene.host.disk.OpensFile store.log.handle := by
    intro store hmem
    obtain ⟨root, hposted⟩ := horderly.posted store hmem
    exact hposted.opensFile horderly.sound
  refine ⟨fun store hmem => ⟨TableStack.writesOut (hequipped store hmem).carried.wellFormed,
    fun key hshows => ?_⟩, ?_⟩
  · exact deletes_of_fits (hopens store hmem) (hsustained.provided.fits_of_shows hmem hshows)
  · intro cursor hcursor owner store kind hlive hmem hgeneration
    exact removes_of_fits hlive hgeneration (hopens store hmem) fun key hcurrent =>
      hsustained.fits cursor hcursor key (Or.inl hcurrent)

/-- A value is put into a new store, and a cursor walks up to its key. The log is replayed, and the
memtable is written out. -/
theorem exists_walked :
    ∃ (host : Host) (store : Portable) (owner : Store Script Portable) (cursor : Cursor)
      (memtable : Memtable) (replayed : Host) (summary : Table.Summary) (stack : TableStack)
      (written : Host),
      Course.From .empty 4 ⟨⟨host, [store]⟩, [cursor]⟩ ∧ Reached Hampering store host ∧
      owner.live = some ⟨store, .portable⟩ ∧ cursor.generation = owner.generation ∧
      cursor.currentKey = some [1] ∧ store.Shows host [1] ∧
      (replay (.ofText "/wal.log") false).run.run host = (.ok memtable, replayed) ∧
      memtable.toList = [([1], some [2])] ∧ store.memtable.toList = [([1], some [2])] ∧
      (TableStack.flush store.tables store.memtable).run host =
        ((.ok summary, stack), written) := by
  let config : Config := { path := .ofText "/" }
  let ownerOf (store : Portable) : Store Script Portable :=
    { config, selector := ⟨.native, .portable⟩, live := some ⟨store, .portable⟩ }
  let searched : Cursor :=
    { generation := 0, pageSize := config.cursorBatchSize, resumeAt := some [] }
  obtain ⟨first, opened, hopened, store, host, hchanged, entry, cursor, walked, hwalked, memtable,
      replayed, hreplayed, summary, stack, written, hwritten, found, after, hgot, hgeneration,
      hcurrent, hentries, hheld, rfl⟩ :
      ∃ first opened, (start config).run.run .empty = (.ok first, opened) ∧
      ∃ store host, (first.change (.put [1] [2])).run opened = ((.ok (), store), host) ∧
      ∃ entry cursor walked,
        (searched.nextEntry (ownerOf store)).run host = ((.ok entry, cursor), walked) ∧
      ∃ memtable replayed,
        (replay (.ofText "/wal.log") false).run.run host = (.ok memtable, replayed) ∧
      ∃ summary stack written,
        (TableStack.flush store.tables store.memtable).run host =
          ((.ok summary, stack), written) ∧
      ∃ found after, (store.get [1]).run.run host = (.ok found, after) ∧
        cursor.generation = 0 ∧ cursor.currentKey = some [1] ∧
        memtable.toList = [([1], some [2])] ∧ store.memtable.toList = [([1], some [2])] ∧
        found = some [2] := by
    refine ⟨_, _, Script.eq_of_succeeded (by decide +kernel), _, _,
      Script.eq_of_done (by decide +kernel), _, _, _,
      Script.eq_of_succeeded_with (by decide +kernel), _, _,
      Script.eq_of_succeeded (by decide +kernel), _, _, _,
      Script.eq_of_succeeded_with (by decide +kernel), _, _,
      Script.eq_of_succeeded (by decide +kernel), ?_⟩
    decide +kernel
  have hfirst : (start config).run.Endures Hampering .empty _ _ := .of_run hopened
  have hsecond : (first.change (.put [1] [2])).Endures Hampering opened _ _ := .of_run hchanged
  have hthird : (searched.nextEntry (ownerOf store)).Endures Hampering host _ _ := .of_run hwalked
  -- The cursor asks the store and changes nothing, so the scene stays as it is.
  obtain ⟨hsame, -⟩ := Cursor.nextEntry_endured hthird
  rw [hsame] at hthird
  have howns : ∀ handle ∈ (ownerOf store).live, handle.handle ∈ [store] := by
    rintro _ ⟨rfl⟩
    exact List.mem_singleton_self store
  have hopening : Course.Step ⟨⟨.empty, []⟩, []⟩ ⟨⟨opened, [first]⟩, []⟩ := .acted (.opened hfirst)
  have hchange : Course.Step ⟨⟨opened, [] ++ first :: []⟩, []⟩ ⟨⟨host, [] ++ store :: []⟩, []⟩ :=
    .acted (.changed hsecond)
  have hsearch : Course.Step ⟨⟨host, [store]⟩, []⟩ ⟨⟨host, [store]⟩, [searched]⟩ :=
    .searched (show (ownerOf store).search [] = .ok searched from rfl)
  have hwalk : Course.Step ⟨⟨host, [store]⟩, [] ++ searched :: []⟩
      ⟨⟨host, [store]⟩, [] ++ cursor :: []⟩ := .walked howns hthird
  exact ⟨host, store, ownerOf store, cursor, memtable, replayed, summary, stack, written,
    (((Course.From.begun.step hopening).step hchange).step hsearch).step hwalk,
    .changed (.opened Host.sound_empty.disk.namesBounded hfirst) hsecond, rfl, hgeneration,
    hcurrent, .get (.of_run hgot), hreplayed, hentries, hheld, hwritten⟩

/-- A store with a value in its log, and a cursor that stands at the key of this value. The memtable
is written out, and the new table has the value. -/
theorem tables_take_what_log_takes_walked :
    ∃ (course : Course) (store : Portable) (owner : Store Script Portable) (cursor : Cursor)
      (memtable : Memtable) (summary : Table.Summary) (stack : TableStack) (table : Table)
      (written : Host),
      Course.From .empty 4 course ∧ store ∈ course.scene.live ∧ cursor ∈ course.cursors ∧
      owner.live = some ⟨store, .portable⟩ ∧ cursor.currentKey = some [1] ∧
      ((replay (.ofText "/wal.log") false).perform course.scene.host).1 = .ok memtable ∧
      memtable.toList = [([1], some [2])] ∧ WritesOut memtable ∧ WritesOut store.memtable ∧
      (TableStack.flush store.tables store.memtable).run course.scene.host =
        ((.ok summary, stack), written) ∧
      stack.tables = table :: store.tables.tables ∧
      (table.askAll [.get [1]]).run written = ([.value (.ok (some [2]))], written) ∧
      store.Deletes course.scene.host [1] ∧ Removes owner course.scene.host cursor := by
  obtain ⟨host, store, owner, cursor, memtable, replayed, summary, stack, written, hfrom, hreached,
    hlive, hgeneration, hcurrent, hshows, hreplayed, hentries, hheld, hwritten⟩ := exists_walked
  have hreplays : (replay (.ofText "/wal.log") false).run.Endures Hampering host _ _ :=
    .of_run hreplayed
  obtain ⟨hreplay, hstore, hcourse⟩ := tables_take_what_log_takes
  obtain ⟨hstores, hcursors⟩ :=
    hcourse Host.sound_empty TableStack.not_numbered_empty hfrom (by decide)
  have hflush : (TableStack.flush store.tables store.memtable).Endures Hampering host _ _ :=
    .of_run hwritten
  have hsustained :=
    Course.Sustained.run Host.sound_empty TableStack.not_numbered_empty (by decide) hfrom
  have hfilled : store.memtable.isEmpty = false := by
    rw [Memtable.isEmpty, KeyMap.isEmpty, show store.memtable.entries.toList = _ from hheld]
    rfl
  obtain ⟨_, table, -, htables, hanswers⟩ | ⟨_, hrefused, -⟩ :=
    (hstore hreached).flush hsustained.provided.orderly.sound hfilled hflush
  swap
  · cases hrefused
  -- The new table answers as the memtable would, and that has one entry.
  have hfound := hanswers [.get [1]]
  rw [hheld] at hfound
  exact ⟨_, store, owner, cursor, memtable, summary, stack, table, written, hfrom,
    List.mem_singleton_self store, List.mem_singleton_self cursor, hlive, hcurrent,
    congrArg Prod.fst hreplayed, hentries, hreplay hreplays, hstore hreached, hwritten, htables,
    hfound, (hstores store (List.mem_singleton_self store)).2 [1] hshows,
    hcursors cursor (List.mem_singleton_self cursor) owner store .portable hlive
      (List.mem_singleton_self store) hgeneration⟩

end OrderedStore.Portable
