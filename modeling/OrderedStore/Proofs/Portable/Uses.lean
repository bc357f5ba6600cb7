import OrderedStore.Proofs.Portable.Locking

/-!
# What a store touches

Whatever calls it is refused, a store that is used writes its log, tables and drafts, and no other
file; it stays on its log and keeps its lock until it is closed or given up.

Main definitions:

- `Portable.Spent`: what a use of a store leaves of a host.
- `Portable.Kin`: what a store keeps of itself.

Main statements: `Portable.change_spent`, `Portable.close_freed`, `Portable.only_get_kept`,
`Portable.only_scan_kept`.
-/

namespace OrderedStore

namespace Portable

open Log (Operation)
open TableStack (SweptOr Added)

variable {may : Host → Call → Prop} {host between after : Host} {root place dir : Location}
  {handle : Handle} {bytes : Bytes} {number : Nat} {entries : List TableEntry}
  {store store' : Portable} {operation : Operation} {result : Except Error Unit}

/-! ## Calls on one file -/

/-- Only the file at a place may be another one, and a handle is on it. -/
structure Tended (place : Location) (handle : Handle) (host after : Host) : Prop where
  sound : after.Sound
  same : host.view.SameBut after.view place
  file : ∃ bytes, after.view.file? place = some (handle.id, bytes)

theorem Tended.trans (h : Tended place handle host between)
    (h' : Tended place handle between after) : Tended place handle host after :=
  ⟨h'.sound, h.same.trans h'.same, h'.file⟩

theorem Tended.of_put (sound : after.Sound)
    (hview : after.view = host.view.put place (some (handle.id, bytes))) :
    Tended place handle host after :=
  ⟨sound, .of_eq_put hview, bytes, View.file?_of_eq_put hview⟩

theorem Tended.of_force (sound : after.Sound) {size : Nat}
    (hview : after.view = (host.view.put place (some (handle.id, bytes))).force handle.id size) :
    Tended place handle host after := by
  refine ⟨sound, sound.sameBut hview, bytes, ?_⟩
  rw [hview]
  exact View.put_file?_self ..

/-- A file gets any size. -/
theorem tended_resize (sound : host.Sound) (file : host.view.file? place = some (handle.id, bytes))
    (size : Nat) : Tended place handle host (host.answer (.resize handle size)).2 := by
  obtain ⟨content, hcontent, rfl⟩ := Action.contentOf_handle file
  by_cases hlimit : Disk.sizeLimit < size
  · have hanswer : (host.answer (.resize handle size)).2 = host := by
      simp only [Host.answer, Disk.resize, Disk.modify, hcontent, hlimit, if_true, Host.settleCut]
    rw [hanswer]
    exact ⟨sound, .refl _ _, _, file⟩
  · have hsize : (content.resized size).size ≤ Disk.sizeLimit := by
      rw [← Content.length_toList, Content.toList_resized]
      simp only [List.length_append, List.length_take, List.length_replicate,
        Content.length_toList]
      omega
    have hset := sound.setContent file hsize
    have hforce := hset.1.setForced handle (View.file?_of_eq_put hset.2)
      (min size (host.forcedSize handle))
    rw [hset.2] at hforce
    simp only [Host.answer, Disk.resize, Disk.modify, hcontent, hlimit, if_false, Host.settleCut]
    exact .of_force hforce.1 hforce.2

theorem tended_of_appends {call : Call} (appends : Appends handle call) (sound : host.Sound)
    (file : host.view.file? place = some (handle.id, bytes)) :
    Tended place handle host (host.answer call).2 := by
  have hsame : Tended place handle host host := ⟨sound, .refl _ _, bytes, file⟩
  cases call with
  | clock => exact hsame
  | append other data =>
    obtain rfl : other = handle := appends
    rcases Action.answer_append file sound data with h | ⟨after, h, hsound, hview⟩
    · rw [h]
      exact hsame
    · rw [h]
      exact .of_put hsound hview
  | resize other size =>
    obtain rfl : other = handle := appends
    exact tended_resize sound file size
  | sync other =>
    obtain rfl : other = handle := appends
    have hset := sound.setForced other file (host.disk.sizeOf other)
    rw [← View.put_eq_self _ _ _ file] at hset
    exact .of_force hset.1 hset.2
  | _ => exact appends.elim

/-- An appender touches its file only. -/
theorem tended_of_only {α : Type} {script : Script α} {value : α} (sound : host.Sound)
    (file : ∃ bytes, host.view.file? place = some (handle.id, bytes))
    (only : script.Only (Appends handle)) (run : script.Endures may host value after) :
    Tended place handle host after := by
  induction run with
  | done => exact ⟨sound, .refl _ _, file⟩
  | answered _ ih =>
    obtain ⟨bytes, hfile⟩ := file
    have hcall := tended_of_appends only.1 sound hfile
    exact hcall.trans (ih hcall.sound hcall.file (only.2 _))
  | refused _ _ _ ih => exact ih sound file (only.2 _)

/-! ## Uses -/

/-- What the use of a store on a directory leaves of a host: all locks, and all files that the store
has no business with. -/
structure Spent (root : Location) (handle : Handle) (host after : Host) : Prop where
  sound : after.Sound
  locked : after.view.locked = host.view.locked
  spares : Spares host.view root after.view
  log : ∃ bytes, after.view.file? (logPlace root) = some (handle.id, bytes)

namespace Spent

theorem trans (h : Spent root handle host between) (h' : Spent root handle between after) :
    Spent root handle host after :=
  ⟨h'.sound, h'.locked.trans h.locked, h.spares.trans h'.spares, h'.log⟩

theorem refl (sound : host.Sound)
    (log : ∃ bytes, host.view.file? (logPlace root) = some (handle.id, bytes)) :
    Spent root handle host host :=
  ⟨sound, rfl, .refl _ _, log⟩

theorem of_tended (h : Tended (logPlace root) handle host after) :
    Spent root handle host after :=
  ⟨h.sound, h.same.locked, .of_log h.same, h.file⟩

/-- A message is shown. -/
theorem told {reporting : Bool} {message : String} {done : Unit}
    (h : Spent root handle host between)
    (run : (tell reporting message).Endures may between done after) :
    Spent root handle host after := by
  obtain ⟨_, hsound, hview⟩ := tell_endured h.sound run
  refine ⟨hsound, ?_, ?_, ?_⟩
  · rw [hview, h.locked]
  · rw [hview]
    exact h.spares
  · rw [hview]
    exact h.log

/-- A write-out leaves a draft at most, or a table. -/
theorem of_sweptOr (h : SweptOr host.view dir number entries after) (small : number < UInt64.size)
    (log : ∃ bytes, host.view.file? (logPlace root) = some (handle.id, bytes)) :
    Spent root handle host after := by
  obtain ⟨bytes, hfile⟩ := log
  rcases h with hswept | hadded
  · refine ⟨hswept.sound, hswept.same.locked, .of_swept hswept.same root, bytes, ?_⟩
    rw [← hfile]
    refine hswept.same.file?_eq ?_
    rw [nameKind_logName]
    intro h
    cases h
  · refine ⟨hadded.sound, added_locked hadded, .of_added hadded small root, bytes, ?_⟩
    rw [← hfile]
    exact added_file?_eq hadded small nameKind_logName

end Spent

/-- What a store keeps of itself while it is used. -/
structure Kin (store store' : Portable) : Prop where
  directory : store'.directory = store.directory
  lockFile : store'.lockFile = store.lockFile
  handle : store'.log.handle = store.log.handle

theorem Kin.refl (store : Portable) : Kin store store :=
  ⟨rfl, rfl, rfl⟩

theorem Kin.trans {store'' : Portable} (h : Kin store store') (h' : Kin store' store'') :
    Kin store store'' :=
  ⟨h'.directory.trans h.directory, h'.lockFile.trans h.lockFile, h'.handle.trans h.handle⟩

theorem writeOut_spent (sound : host.Sound)
    (log : ∃ bytes, host.view.file? (logPlace root) = some (store.log.handle.id, bytes))
    (run : store.writeOut.Endures may host (result, store') after) :
    Spent root store.log.handle host after ∧ Kin store store' := by
  have hsmall : store.tables.nextId.toNat < UInt64.size := store.tables.nextId.toNat_lt
  cases writeOut_run run with
  | nothing _ => exact ⟨.refl sound log, .refl store⟩
  | unflushed hnonempty hflush =>
    obtain _ | hswept := TableStack.flush_endured_any sound rfl hnonempty hflush
    exact ⟨.of_sweptOr hswept hsmall log, rfl, rfl, rfl⟩
  | @flushed _ _ _ _ _ _ between _ _ hnonempty hflush htruncate htell =>
    obtain ⟨hadded, _⟩ := TableStack.flush_endured_any sound rfl hnonempty hflush
    have hwritten : Spent root store.log.handle host between :=
      .of_sweptOr (Or.inr hadded) hsmall log
    have htended := tended_of_only hwritten.sound hwritten.log (only_log_truncate _) htruncate
    have hspent := hwritten.trans (.of_tended htended)
    exact ⟨hspent.told htell, rfl, rfl, htruncate.gives (gives_log_truncate _)⟩

theorem writeOutIfFull_spent (sound : host.Sound)
    (log : ∃ bytes, host.view.file? (logPlace root) = some (store.log.handle.id, bytes))
    (run : store.writeOutIfFull.Endures may host store' after) :
    Spent root store.log.handle host after ∧ Kin store store' := by
  cases writeOutIfFull_run run with
  | below _ => exact ⟨.refl sound log, .refl store⟩
  | written hwrite => exact writeOut_spent sound log hwrite
  | putOff hwrite htell =>
    -- The failure is only reported.
    obtain ⟨hspent, hkin⟩ := writeOut_spent sound log hwrite
    exact ⟨hspent.told htell, hkin⟩

theorem commit_spent (sound : host.Sound)
    (log : ∃ bytes, host.view.file? (logPlace root) = some (store.log.handle.id, bytes))
    (run : (store.commit operation).Endures may host (result, store') after) :
    Spent root store.log.handle host after ∧ Kin store store' := by
  cases commit_run run with
  | unlogged happend =>
    have htended := tended_of_only sound log (only_log_append _ _) happend
    exact ⟨.of_tended htended, rfl, rfl, happend.gives (gives_log_append _ _)⟩
  | @logged _ log' _ logged _ happend hwrite =>
    have htended := tended_of_only sound log (only_log_append _ _) happend
    have hhandle : log'.handle = store.log.handle := happend.gives (gives_log_append _ _)
    have hlog : ∃ bytes, logged.view.file? (logPlace root) = some (log'.handle.id, bytes) := by
      rw [hhandle]
      exact htended.file
    obtain ⟨hspent, hkin⟩ := writeOutIfFull_spent htended.sound hlog hwrite
    rw [show ({ store with log := log', memtable := _ } : Portable).log.handle = _ from hhandle]
      at hspent
    have hlogging : Kin store { store with
        log := log', memtable := store.memtable.applyAll operation.mutations } :=
      ⟨rfl, rfl, hhandle⟩
    exact ⟨(Spent.of_tended htended).trans hspent, hlogging.trans hkin⟩

theorem change_spent {change : Change} (sound : host.Sound)
    (log : ∃ bytes, host.view.file? (logPlace root) = some (store.log.handle.id, bytes))
    (run : (store.change change).Endures may host (result, store') after) :
    Spent root store.log.handle host after ∧ Kin store store' := by
  rcases change.commits with ⟨operation, _, h⟩ | ⟨_, h⟩ <;> rw [h store] at run
  · exact commit_spent sound log run
  · cases run
    exact ⟨.refl sound log, .refl store⟩

/-! ## Readings -/

/-- A lookup leaves every host as it is. -/
theorem only_get_kept (store : Portable) (key : Bytes) : (store.get key).Only Call.Kept := by
  unfold Portable.get
  split
  · exact Action.only_pure _
  · exact (TableStack.only_findIn_kept key _).bind fun _ => Action.only_pure _

theorem only_sources_kept (store : Portable) (start : Bytes) (limit : Nat) :
    (store.sources start limit).Only Call.Kept :=
  (TableStack.only_scan_kept _ start limit).bind fun _ => Action.only_pure _

/-- A scan leaves every host as it is. -/
theorem only_scan_kept (store : Portable) (start : Bytes) (limit : Nat) :
    (store.scan start limit).Only Call.Kept := by
  unfold Portable.scan
  generalize store.scanRounds = rounds
  induction rounds generalizing start with
  | zero => exact Action.only_pure _
  | succ rounds ih =>
    unfold scanWithin
    refine (only_sources_kept store start _).bind fun sources => ?_
    simp only
    split
    · exact ih _
    · exact Action.only_pure _

/-! ## The end of a store -/

/-- What a store leaves that is closed or given up: its lock is free. -/
structure Freed (root : Location) (lockFile : Handle) (host after : Host) : Prop where
  sound : after.Sound
  locked : after.view.locked = host.view.locked.filter (· ≠ lockFile.id)
  spares : Spares host.view root after.view

theorem abandon_freed {done : Unit} (sound : host.Sound)
    (run : store.abandon.Endures may host done after) : Freed root store.lockFile host after := by
  obtain ⟨hsound, hview⟩ := unlock_endured sound run
  refine ⟨hsound, ?_, ?_⟩
  · rw [hview]
    rfl
  · rw [hview]
    exact ⟨rfl, fun _ h => h, fun _ _ _ _ _ h => h⟩

theorem Spent.freed {lockFile : Handle} (h : Spent root handle host between)
    (h' : Freed root lockFile between after) : Freed root lockFile host after :=
  ⟨h'.sound, by rw [h'.locked, h.locked], h.spares.trans h'.spares⟩

/-- A store gives up its lock when it is closed, in good order or not. -/
theorem close_freed (sound : host.Sound)
    (log : ∃ bytes, host.view.file? (logPlace root) = some (store.log.handle.id, bytes))
    (run : store.close.Endures may host result after) : Freed root store.lockFile host after := by
  cases close_run run with
  | unwritten hwrite habandon =>
    obtain ⟨hspent, _⟩ := writeOut_spent sound log hwrite
    exact hspent.freed (abandon_freed hspent.sound habandon)
  | written hwrite hsync htell habandon =>
    obtain ⟨hspent, hkin⟩ := writeOut_spent sound log hwrite
    have htended := tended_of_only hspent.sound hspent.log (only_log_sync hkin.handle) hsync
    have htold := (hspent.trans (.of_tended htended)).told htell
    rw [← hkin.lockFile]
    exact htold.freed (abandon_freed htold.sound habandon)

end Portable

end OrderedStore
