import OrderedStore.Proofs.Log.Carrying
import OrderedStore.Proofs.Portable.Oversize

/-!
# Memtables that came through the log

An entry gets into a memtable by an operation that was logged, or that was read from a log. So every
entry of a memtable fits a frame, whatever was done to the store, its log and the host.

Main statements: `Portable.carried_of_replay`, `Portable.Reached.carried`.
-/

namespace OrderedStore.Portable

open Log (Operation)

variable {may : Host → Call → Prop} {host after : Host} {store : Portable}

/-! ## Replaying -/

/-- What is replayed came through the log, whatever the log holds. -/
theorem carried_of_replay {path : Path} {reporting : Bool} {memtable : Memtable}
    (run : (replay path reporting).run.Endures may host (.ok memtable) after) :
    memtable.Carried := by
  unfold replay at run
  obtain ⟨found, probed, _, run⟩ := Action.endures_bind_ok run
  split at run
  · cases run
    exact Memtable.carried_empty
  obtain ⟨⟨records, recovery⟩, recovered, hrecover, run⟩ := Action.endures_bind_ok run
  have hmemtable : (Memtable.empty.applyAll (records.flatMap (·.operation.mutations))).Carried := by
    refine Memtable.carried_empty.applyAll fun mutation hmem => ?_
    obtain ⟨record, hrecord, hmutation⟩ := List.mem_flatMap.1 hmem
    exact Log.carried_of_mem hmutation (Log.Recovery.fits_of_recover hrecover record hrecord)
  simp only at run
  split at run
  · obtain ⟨_, _, _, run⟩ := Action.endures_ofScript_bind run
    cases run
    exact hmemtable
  · cases run
    exact hmemtable

/-! ## Changes -/

theorem gives_writeOut_carried (carried : store.memtable.Carried) :
    store.writeOut.Gives (fun _ => True) fun found => found.2.memtable.Carried := by
  unfold writeOut
  split
  · exact carried
  refine Script.Gives.bind (Script.gives_any _) ?_
  rintro ⟨e | summary, tables⟩ _
  · exact carried
  refine Script.Gives.bind (Script.gives_any _) ?_
  rintro ⟨e | done, log⟩ _
  · exact Memtable.carried_empty
  · exact Script.Gives.bind (Script.gives_any _) fun _ _ => Memtable.carried_empty

theorem gives_writeOutIfFull_carried (carried : store.memtable.Carried) :
    store.writeOutIfFull.Gives (fun _ => True) fun written => written.memtable.Carried := by
  unfold writeOutIfFull
  split
  · exact carried
  refine Script.Gives.bind (gives_writeOut_carried carried) ?_
  rintro ⟨e | done, written⟩ hwritten
  · exact Script.Gives.bind (Script.gives_any _) fun _ _ => hwritten
  · exact hwritten

theorem gives_commit_carried (carried : store.memtable.Carried) (operation : Operation) :
    (store.commit operation).Gives (fun _ => True) fun found => found.2.memtable.Carried := by
  unfold commit
  refine Script.Gives.bind (Log.gives_append_fits store.log operation) ?_
  rintro ⟨e | lsn, log⟩ hfits
  · exact carried
  have happlied : (store.memtable.applyAll operation.mutations).Carried :=
    carried.applyAll fun mutation hmem => Log.carried_of_mem hmem (hfits lsn rfl)
  refine Script.Gives.bind (gives_writeOutIfFull_carried ?_) fun _ hwritten => hwritten
  exact happlied

theorem gives_change_carried (carried : store.memtable.Carried) (change : Change) :
    (store.change change).Gives (fun _ => True) fun found => found.2.memtable.Carried := by
  rcases change.commits with ⟨operation, _, h⟩ | ⟨_, h⟩ <;> rw [h store]
  · exact gives_commit_carried carried operation
  · exact carried

/-- A store that was opened has nothing in its memtable. -/
theorem memtable_of_start {config : Config}
    (run : (start config).run.Endures may host (.ok store) after) : store.memtable = .empty := by
  cases start_run run with
  | opened _ _ hload =>
    obtain ⟨tables, tabled, _, run⟩ := Action.endures_bind_ok hload
    obtain ⟨memtable, replayed, _, run⟩ := Action.endures_bind_ok run
    obtain ⟨log, logged, _, run⟩ := Action.endures_bind_ok run
    obtain ⟨written, _, _, run⟩ := Action.endures_bind_ok run
    obtain ⟨_, told, _, run⟩ := Action.endures_ofScript_bind run
    cases run
    rfl

/-- What a store has in its memtable came through the log. -/
theorem Reached.carried (reached : Reached may store host) : store.memtable.Carried := by
  induction reached with
  | opened _ run =>
    rw [memtable_of_start run]
    exact Memtable.carried_empty
  | changed _ run ih => exact run.gives (gives_change_carried ih _)
  | beside _ _ ih => exact ih

end OrderedStore.Portable
