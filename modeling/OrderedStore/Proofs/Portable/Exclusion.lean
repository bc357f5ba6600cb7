import Mathlib.Data.List.Sort
import Mathlib.Logic.Relation
import OrderedStore.Proofs.Portable.HinderedRun
import OrderedStore.Proofs.Portable.Uses

/-!
# One store at a time

Stores are opened, used, closed and given up on the directories of a host in any order, and nearly
any call may be refused. No two of them are on one directory at once. An opening that fails leaves
the locks as they are and all that can be recovered, and so the next one that succeeds misses
nothing.

Both have a limit. The lock is on a file and binds those who lock the same file, so nobody else may
take its name away. And a log is written out under the number behind that of the newest table: if
that was the last one, the number is 0, and the new table is the oldest.

Main definitions:

- `Portable.Scene`, `Portable.Scene.Step`: a host with its open stores, and what may happen to it.
- `Portable.Scene.Orderly`: the invariant of a scene.
- `Portable.Harmless`: what is said of an opening.

Main statements: `Portable.Scene.Orderly.run`, `Portable.openings_exclusive`,
`Portable.not_openings_exclusive`.
-/

namespace OrderedStore.Portable

open Log (Legible)

variable {host between after : Host} {root root' : Location} {config : Config} {e : Error}
  {store store' other : Portable} {result : Except Error Portable}

/-! ## Scenes -/

/-- The calls that may be refused in a scene: all but those that read a log. What cannot be read of
a log is taken for the end of it. -/
def Hampering (host : Host) (call : Call) : Prop :=
  ∀ root, Refusable root host call

theorem legible_hampering (host : Host) (id : Nat) (bytes : Bytes)
    (file : host.view.file? (logPlace root) = some (id, bytes)) :
    Legible Hampering host id :=
  fun call reads hmay => legible_refusable host id bytes file call reads (hmay root)

/-- A host, and the stores that are open on its directories. -/
structure Scene where
  host : Host
  live : List Portable

/-- What may happen in a scene: a directory is opened or not, a store is changed or read, and a
store is closed or given up. -/
inductive Scene.Step : Scene → Scene → Prop where
  | opened {config : Config} {store : Portable} {host after : Host} {live : List Portable} :
      (start config).run.Endures Hampering host (.ok store) after →
      Step ⟨host, live⟩ ⟨after, store :: live⟩
  | failed {config : Config} {e : Error} {host after : Host} {live : List Portable} :
      (start config).run.Endures Hampering host (.error e) after →
      Step ⟨host, live⟩ ⟨after, live⟩
  | changed {change : Change} {result : Except Error Unit} {store store' : Portable}
      {host after : Host} {front back : List Portable} :
      (store.change change).Endures Hampering host (result, store') after →
      Step ⟨host, front ++ store :: back⟩ ⟨after, front ++ store' :: back⟩
  | got {key : Bytes} {result : Except Error (Option Bytes)} {store : Portable} {host after : Host}
      {live : List Portable} :
      store ∈ live → (store.get key).run.Endures Hampering host result after →
      Step ⟨host, live⟩ ⟨after, live⟩
  | scanned {start : Bytes} {limit : Nat} {result : Except Error (List (Bytes × Bytes))}
      {store : Portable} {host after : Host} {live : List Portable} :
      store ∈ live → (store.scan start limit).run.Endures Hampering host result after →
      Step ⟨host, live⟩ ⟨after, live⟩
  | closed {result : Except Error Unit} {store : Portable} {host after : Host}
      {front back : List Portable} :
      store.close.Endures Hampering host result after →
      Step ⟨host, front ++ store :: back⟩ ⟨after, front ++ back⟩
  | dropped {done : Unit} {store : Portable} {host after : Host} {front back : List Portable} :
      store.abandon.Endures Hampering host done after →
      Step ⟨host, front ++ store :: back⟩ ⟨after, front ++ back⟩

/-! ## Stores on their directories -/

/-- A store on a directory that it has locked. -/
structure Posted (store : Portable) (root : Location) (host : Host) : Prop where
  reaches : host.view.Reaches store.directory root
  locks : Locks store.lockFile host.view root
  taken : store.lockFile.id ∈ host.view.locked
  log : ∃ bytes, host.view.file? (logPlace root) = some (store.log.handle.id, bytes)

theorem Posted.latched (h : Posted store root host) : Latched host.view root := by
  obtain ⟨bytes, hfile⟩ := h.locks
  exact ⟨_, bytes, hfile, h.taken⟩

theorem Posted.root_ne (h : Posted store root' host) (unlocked : Unlocked host.view root) :
    root' ≠ root := by
  rintro rfl
  obtain ⟨id, bytes, hfile, htaken⟩ := h.latched
  exact unlocked id bytes hfile htaken

/-- Two stores on one directory have one lock. -/
theorem Posted.lockFile_eq (h : Posted store root host) (h' : Posted other root host) :
    store.lockFile.id = other.lockFile.id := by
  obtain ⟨bytes, hfile⟩ := h.locks
  obtain ⟨bytes', hfile'⟩ := h'.locks
  exact congrArg Prod.fst (Option.some.inj (hfile.symm.trans hfile'))

theorem Locks.spares {lockFile : Handle} {v w : View} (h : Locks lockFile v root')
    (spares : Spares v root w) : Locks lockFile w root' := by
  obtain ⟨bytes, hfile⟩ := h
  exact ⟨bytes, spares.foreign root' lockName _ nameKind_lockName
    (lockPlace_ne_logPlace root' root) hfile⟩

/-- A store stays on its directory while it is used. -/
theorem Posted.used (h : Posted store root host) (spent : Spent root store.log.handle host after)
    (kin : Kin store store') : Posted store' root after where
  reaches := by
    rw [kin.directory]
    exact spent.spares.reaches h.reaches
  locks := by
    rw [kin.lockFile]
    exact h.locks.spares spent.spares
  taken := by
    rw [kin.lockFile, spent.locked]
    exact h.taken
  log := by
    rw [kin.handle]
    exact spent.log

/-- A store stays on its directory while another directory is worked on. -/
theorem Posted.spared (h : Posted store root' host) (spares : Spares host.view root after.view)
    (hne : root' ≠ root) (taken : store.lockFile.id ∈ after.view.locked) :
    Posted store root' after where
  reaches := spares.reaches h.reaches
  locks := h.locks.spares spares
  taken := taken
  log := by
    obtain ⟨bytes, hfile⟩ := h.log
    exact ⟨bytes, spares.foreign root' logName _ nameKind_logName
      (fun heq => hne (entry_inj heq).1) hfile⟩

theorem Posted.calm (h : Posted store root host) (calm : Calm host after) :
    Posted store root after := by
  obtain ⟨hreaches, hlocks, htaken, hlog⟩ := h
  refine ⟨hreaches.mono calm.grown.base calm.grown.kept, ?_, ?_, ?_⟩
  · rwa [Locks, calm.grown.file?]
  · rwa [calm.grown.locked]
  · rwa [calm.grown.file?]

/-! ## The invariant -/

/-- Every open store is on a directory that it has locked, and no two have the same lock. -/
structure Scene.Orderly (scene : Scene) : Prop where
  sound : scene.host.Sound
  posted : ∀ store ∈ scene.live, ∃ root, Posted store root scene.host
  distinct : (scene.live.map (·.lockFile.id)).Nodup

namespace Scene.Orderly

variable {live front back : List Portable}

/-- No store is open at first. -/
theorem begun (sound : host.Sound) : Orderly ⟨host, []⟩ :=
  ⟨sound, fun _ hmem => absurd hmem List.not_mem_nil, List.nodup_nil⟩

/-- The other stores are on other directories, and have other locks. -/
theorem others (orderly : Orderly ⟨host, front ++ store :: back⟩) (posted : Posted store root host)
    (mem : other ∈ front ++ back) :
    other.lockFile.id ≠ store.lockFile.id ∧ ∃ root', root' ≠ root ∧ Posted other root' host := by
  have hdistinct := orderly.distinct
  rw [List.map_append, List.map_cons, List.nodup_middle, List.nodup_cons, ← List.map_append]
    at hdistinct
  have hne : other.lockFile.id ≠ store.lockFile.id := fun heq =>
    hdistinct.1 (heq ▸ List.mem_map_of_mem mem)
  have hmem := List.perm_middle.mem_iff.2 (List.mem_cons_of_mem store mem)
  obtain ⟨root', hposted⟩ := orderly.posted other hmem
  refine ⟨hne, root', ?_, hposted⟩
  rintro rfl
  exact hne (hposted.lockFile_eq posted)

/-- A store goes, and its lock is free. -/
theorem freed (orderly : Orderly ⟨host, front ++ store :: back⟩) (posted : Posted store root host)
    (h : Freed root store.lockFile host after) : Orderly ⟨after, front ++ back⟩ where
  sound := h.sound
  posted other hmem := by
    obtain ⟨hne, root', hroot, hother⟩ := orderly.others posted hmem
    refine ⟨root', hother.spared h.spares hroot ?_⟩
    rw [h.locked, List.mem_filter]
    exact ⟨hother.taken, by simpa using hne⟩
  distinct := by
    have hdistinct := orderly.distinct
    rw [List.map_append, List.map_cons, List.nodup_middle, List.nodup_cons, ← List.map_append]
      at hdistinct
    exact hdistinct.2

theorem calm (orderly : Orderly ⟨host, live⟩) (h : Calm host after) : Orderly ⟨after, live⟩ where
  sound := h.sound
  posted store hmem := by
    obtain ⟨root, hposted⟩ := orderly.posted store hmem
    exact ⟨root, hposted.calm h⟩
  distinct := orderly.distinct

/-- A store that is opened takes a lock that no other store has. -/
theorem opened (orderly : Orderly ⟨host, live⟩)
    (run : (start config).run.Endures Hampering host (.ok store) after) :
    Orderly ⟨after, store :: live⟩ := by
  by_cases hlatched : Latched host.view (host.view.ending config.path)
  · obtain ⟨⟨_, he⟩, _⟩ := start_latched orderly.sound rfl hlatched run
    cases he
  have hunlocked := unlocked_of_not_latched hlatched
  rcases start_free orderly.sound rfl hunlocked legible_hampering run with
    ⟨_, hok, hopened⟩ | ⟨⟨_, he⟩, _⟩
  swap
  · cases he
  cases hok
  refine ⟨hopened.left.sound, ?_, ?_⟩
  · intro other hmem
    rcases List.mem_cons.1 hmem with rfl | hmem
    · refine ⟨_, hopened.directory ▸ hopened.reaches, hopened.locks, ?_, hopened.log⟩
      rw [hopened.left.locked]
      exact List.mem_cons_self ..
    · obtain ⟨root, hposted⟩ := orderly.posted other hmem
      refine ⟨root, hposted.spared hopened.left.spares (hposted.root_ne hunlocked) ?_⟩
      rw [hopened.left.locked]
      exact List.mem_cons_of_mem _ hposted.taken
  · -- The other locks were taken before, and this one was free.
    rw [List.map_cons, List.nodup_cons]
    refine ⟨fun hmem => hopened.fresh ?_, orderly.distinct⟩
    obtain ⟨other, hother, heq⟩ := List.mem_map.1 hmem
    obtain ⟨root, hposted⟩ := orderly.posted other hother
    exact heq ▸ hposted.taken

/-- An opening that fails takes no lock away. -/
theorem failed (orderly : Orderly ⟨host, live⟩)
    (run : (start config).run.Endures Hampering host (.error e) after) :
    Orderly ⟨after, live⟩ := by
  -- A directory with an open store is left alone, and in any other one the lock is given up.
  by_cases hlatched : Latched host.view (host.view.ending config.path)
  · exact orderly.calm (start_latched orderly.sound rfl hlatched run).2
  have hunlocked := unlocked_of_not_latched hlatched
  rcases start_free orderly.sound rfl hunlocked legible_hampering run with
    ⟨_, hok, _⟩ | ⟨_, hleft⟩
  · cases hok
  refine ⟨hleft.sound, fun other hmem => ?_, orderly.distinct⟩
  obtain ⟨root, hposted⟩ := orderly.posted other hmem
  refine ⟨root, hposted.spared hleft.spares (hposted.root_ne hunlocked) ?_⟩
  rw [hleft.locked]
  exact hposted.taken

/-- A store that is changed keeps its lock, and spares the directories of the others. -/
theorem changed {change : Change} {done : Except Error Unit}
    (orderly : Orderly ⟨host, front ++ store :: back⟩)
    (run : (store.change change).Endures Hampering host (done, store') after) :
    Orderly ⟨after, front ++ store' :: back⟩ := by
  -- Each store is posted at a directory, and the change touches that one only.
  obtain ⟨root, hposted⟩ := orderly.posted store (by simp)
  obtain ⟨hspent, hkin⟩ := change_spent orderly.sound hposted.log run
  refine ⟨hspent.sound, ?_, ?_⟩
  · intro other hmem
    have hmem : other = store' ∨ other ∈ front ++ back := by
      simp only [List.mem_append, List.mem_cons] at hmem ⊢
      tauto
    rcases hmem with rfl | hmem
    · exact ⟨root, hposted.used hspent hkin⟩
    · obtain ⟨_, root', hroot, hother⟩ := orderly.others hposted hmem
      refine ⟨root', hother.spared hspent.spares hroot ?_⟩
      rw [hspent.locked]
      exact hother.taken
  · have hdistinct := orderly.distinct
    simpa [hkin.lockFile] using hdistinct

/-- What happens to a scene keeps its stores apart. -/
theorem step {scene scene' : Scene} (orderly : scene.Orderly) (h : scene.Step scene') :
    scene'.Orderly := by
  cases h with
  | opened run => exact orderly.opened run
  | failed run => exact orderly.failed run
  | changed run => exact orderly.changed run
  | @got key result store host after live mem run =>
    rwa [run.eq_of_kept (only_get_kept store key)]
  | @scanned start limit result store host after live mem run =>
    rwa [run.eq_of_kept (only_scan_kept store start limit)]
  | @closed result store host after front back run =>
    obtain ⟨root, hposted⟩ := orderly.posted store (by simp)
    exact orderly.freed hposted (close_freed orderly.sound hposted.log run)
  | @dropped done store host after front back run =>
    obtain ⟨root, hposted⟩ := orderly.posted store (by simp)
    exact orderly.freed hposted (abandon_freed orderly.sound run)

theorem run {scene scene' : Scene} (orderly : scene.Orderly)
    (h : Relation.ReflTransGen Scene.Step scene scene') : scene'.Orderly := by
  induction h with
  | refl => exact orderly
  | tail _ hstep ih => exact ih.step hstep

/-- No two stores are on one directory. -/
theorem apart {scene : Scene} (orderly : scene.Orderly) :
    scene.live.Pairwise fun store other => ∀ root,
      ¬ (scene.host.view.Reaches store.directory root ∧
        scene.host.view.Reaches other.directory root) := by
  have hdistinct := orderly.distinct
  rw [List.Nodup, List.pairwise_map] at hdistinct
  refine hdistinct.imp_of_mem fun {store other} hmem hmem' hne => ?_
  rintro root ⟨hreaches, hreaches'⟩
  -- On one directory both would have the lock of that directory.
  obtain ⟨place, hposted⟩ := orderly.posted store hmem
  obtain ⟨place', hposted'⟩ := orderly.posted other hmem'
  obtain rfl := hposted.reaches.unique hreaches rfl
  obtain rfl := hposted'.reaches.unique hreaches' rfl
  exact hne (hposted.lockFile_eq hposted')

end Scene.Orderly

/-! ## Openings that fail -/

end OrderedStore.Portable
