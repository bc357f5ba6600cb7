import OrderedStore.Proofs.TableStack.Flushing
import OrderedStore.Proofs.TableStack.Parts

/-!
# Hindered write-outs

Wherever a table is hindered from being written or opened, its writing ends with an error. So a
write-out that is hindered leaves the directory as a write-out may be found in its midst.

Main statement: `TableStack.flush_endured`.
-/

namespace OrderedStore

/-! ## Tables that end where they are hindered -/

namespace TableStack

variable {may : Host → Call → Prop} {host after : Host} {v : View} {dir : Location}
  {volumes served : List Volume} {volume : Volume} {memtable : Memtable}

theorem brittle_start (directory : Path) (capacity : Nat) : (start directory capacity).Brittle :=
  Action.passes_brittle.startTables Action.brittle_read (fun path => Action.brittle_openFile path _)
    Action.brittle_size Action.brittle_makeDirectories Action.brittle_list Action.brittle_removeFile
    directory capacity

theorem brittle_write (handle : Handle) (offset : Nat) (data : Bytes) :
    (Action.write handle offset data).Brittle :=
  Action.brittle_of_fallible (Script.only_call trivial)

/-- Adding entries asks for nothing but writes, and neither does giving a draft up. Those are calls
that every conduct takes into account. -/
theorem brittle_addAll_orElseCleanup (draft : Table.Draft) (entries : List TableEntry) :
    ((draft.addAll entries).orElseCleanup draft.abandon).Brittle := by
  have writes : ∀ handle offset data, (Action.write handle offset data).Only
      fun call => call.Fallible ∨ ∀ reply, call.fault? reply = none :=
    fun _ _ _ => Action.only_attempt (Script.only_call (Or.inl trivial))
  have passes := Action.passes_only fun call => call.Fallible ∨ ∀ reply, call.fault? reply = none
  refine Action.brittle_of_only ((passes.addAll writes draft entries).orElseCleanup ?_)
  exact Script.Only.bind (passes.flushOutput writes draft.out) fun _ => trivial

theorem brittle_draftTable (directory : Path) (capacity id : Nat) (memtable : Memtable) :
    (draftTable directory capacity id memtable).Brittle :=
  Action.passes_brittle.draftTable brittle_write (fun path => Action.brittle_openFile path _)
    brittle_addAll_orElseCleanup Action.brittle_sync Action.brittle_size directory capacity id
    memtable

theorem brittle_writeTable (directory : Path) (capacity id : Nat) (memtable : Memtable) :
    (writeTable directory capacity id memtable).Brittle :=
  Action.passes_brittle.writeTable brittle_write (fun path => Action.brittle_openFile path _)
    brittle_addAll_orElseCleanup Action.brittle_sync Action.brittle_size Action.brittle_read
    (fun path => Action.brittle_openFile path _) Action.brittle_rename directory capacity id
    memtable

/-- A write-out fails where a call is refused that no conduct refuses. -/
theorem brittle_flush (stack : TableStack) (memtable : Memtable) :
    (stack.flush memtable).Brittle fun result => Action.Failed result.1 := by
  unfold flush
  split
  · trivial
  refine Script.Brittle.bind (brittle_writeTable _ _ _ _) ?_ ?_
  · rintro _ ⟨e, rfl⟩
    exact ⟨_, rfl, e, rfl⟩
  · rintro (e | written)
    · trivial
    · trivial

/-- What a write-out leaves: the memtable is the newest table, or the open tables are the ones from
before. Its number is used up in any case. -/
inductive Attempted (stack : TableStack) (v : View) (dir : Location)
    (volumes served : List Volume) (volume : Volume) :
    Except Error Table.Summary → TableStack → Host → Prop where
  | written {summary : Table.Summary} {table : Table} {host : Host} :
      Stacked v dir (volume :: volumes) (volume :: served) (table :: stack.tables) host →
      Attempted stack v dir volumes served volume (.ok summary)
        { stack with tables := table :: stack.tables, nextId := stack.nextId + 1 } host
  | failed {e : Error} {host : Host} :
      StackedOr v dir volumes volume served stack.tables host →
      Attempted stack v dir volumes served volume (.error e)
        { stack with nextId := stack.nextId + 1 } host

/-- A write-out may be hindered anywhere. -/
theorem flush_endured {stack stack' : TableStack} {result : Except Error Table.Summary}
    (stacked : Stacked v dir volumes served stack.tables host)
    (reaches : host.view.Reaches stack.directory dir) (fresh : Fresh volumes served volume)
    (number : stack.nextId.toNat = volume.id) (entries : memtable.toList = volume.entries)
    (nonempty : memtable.isEmpty = false)
    (run : (stack.flush memtable).Endures may host (result, stack') after) :
    Attempted stack v dir volumes served volume result stack' after := by
  unfold flush at run
  simp only [nonempty, number] at run
  obtain ⟨written, between, hwrite, hrest⟩ := run.of_bind
  have hensures := @ensures_writeTable .frail _ _ _ _ _ _ _ stack.capacity _ _ stacked reaches
    fresh entries
  have hcases := hwrite.yields_or_stops (brittle_writeTable _ _ _ _)
  -- Failing and dying on the way leave the same: the table is there, or nothing of it counts.
  cases written with
  | ok written =>
    cases hrest
    refine .written ?_
    rcases hcases with hyields | ⟨⟨e, he⟩, _⟩
    · exact hensures.yields hyields
    · cases he
  | error e =>
    cases hrest
    refine .failed ?_
    rcases hcases with hyields | ⟨_, hstops⟩
    · exact (hensures.yields hyields).2.imp_right And.right
    · exact hensures.stops hstops

end TableStack

end OrderedStore
