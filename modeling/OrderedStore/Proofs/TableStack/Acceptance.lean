import OrderedStore.Proofs.Host.Strict
import OrderedStore.Proofs.Table.Answers
import OrderedStore.Proofs.TableStack.Found

/-!
# Memtables that are written out

A memtable whose entries make up a table is written out as one, and nothing but the refusal of a
call of the write-out can keep it from that.

Main definition: `TableStack.WritesOut`.

Main statement: `TableStack.writesOut`.
-/

namespace OrderedStore

namespace Action

variable {α : Type} {action : Action α} {may : Host → Call → Prop} {host after : Host}
  {result : Except Error α} {stop : Host → Prop} {ok : α → Host → Prop} {err : Error → Host → Prop}

theorem passes_strict : Passes fun _ action => action.Strict :=
  ⟨⟨strict_pure, Strict.bind⟩, fun _ => strict_throw _⟩

theorem passes_candid : Passes fun _ action => action.Candid := by
  refine ⟨⟨candid_pure, Candid.bind⟩, fun tables => candid_throw ?_⟩
  rintro ⟨_, rfl⟩
  exact tables

/-- What is ensured where no call is refused is ensured in hindered runs, unless a refusal is
passed on. -/
theorem Strict.ensured (strict : action.Strict) (h : action.Ensures .own stop ok err host)
    (run : action.run.Endures may host result after) :
    (∃ value, result = .ok value ∧ ok value after) ∨
      ∃ e, result = .error e ∧ (e.OfSystem ∨ ∃ last, err e last) := by
  have hplain := Script.Ensures.run h
  cases result with
  | ok value =>
    have heq : action.run.run host = (.ok value, after) := strict.ok run
    rw [heq] at hplain
    exact Or.inl ⟨value, rfl, hplain⟩
  | error e =>
    refine Or.inr ⟨e, rfl, (strict.err run).imp_right fun heq =>
      ⟨(action.run.run host).2, ?_⟩⟩
    rw [show (action.run.run host).1 = .error e from heq] at hplain
    exact hplain

end Action

namespace TableStack

open Table (WellFormed)

variable {may : Host → Call → Prop} {host after : Host} {path : Path} {dir : Location}
  {memtable : Memtable} {capacity number : Nat} {stack stack' : TableStack}
  {result : Except Error Table.Summary}

theorem strict_writeTable (directory : Path) (capacity id : Nat) (memtable : Memtable) :
    (writeTable directory capacity id memtable).Strict :=
  Action.passes_strict.writeTable Action.strict_write (fun path => Action.strict_openFile path _)
    (fun draft entries =>
      (Action.passes_strict.addAll Action.strict_write draft entries).orElseCleanup)
    Action.strict_sync Action.strict_size Action.strict_read
    (fun path => Action.strict_openFile path _) Action.strict_rename directory capacity id memtable

theorem candid_writeTable (directory : Path) (capacity id : Nat) (memtable : Memtable) :
    (writeTable directory capacity id memtable).Candid :=
  Action.passes_candid.writeTable Action.candid_write (fun path => Action.candid_openFile path _)
    (fun draft entries =>
      (Action.passes_candid.addAll Action.candid_write draft entries).orElseCleanup)
    Action.candid_sync (fun _ => Action.candid_ofScript _) Action.candid_read
    (fun path => Action.candid_openFile path _) Action.candid_rename directory capacity id memtable

/-- A table is written and opened, or a call is refused. -/
theorem ensures_writeTable_wellFormed (sound : host.Sound) (home : host.view.ending path = dir)
    (small : number < UInt64.size) (wellFormed : WellFormed memtable.toList) :
    (writeTable path capacity number memtable).Ensures .own (fun _ => True)
      (fun written after => after.Sound ∧ written.2.Opened after.view memtable.toList)
      (fun e _ => e.OfSystem) host := by
  rw [writeTable_eq]
  refine Action.Ensures.bind_of ((ensures_draftTable sound home).mono (fun _ _ => trivial)
    (fun _ _ h => h) fun _ _ h => h) ?_ fun _ _ h => h.1.resolve_right (not_not_intro wellFormed)
  intro summary finished hdrafted
  have hrename : (Action.rename (path.child (draftName number))
      (path.child (fileName number))).Ensures .own (fun _ => True)
      (fun _ last => ¬ (path.child (fileName number)).Overlong ∧
        Added host.view dir number memtable.toList last ∧
        last.view.Names (path.child (fileName number)) (dir ++ [fileName number]))
      (fun _ _ => True) finished :=
    ensures_rename_drafted hdrafted small trivial (fun _ => trivial)
      fun last hshort hadded hnames => ⟨trivial, hshort, hadded, hnames⟩
  refine Action.Ensures.bind_of (hrename.and_throws (Action.throws_attempt_ofSystem _)) ?_
    fun _ _ h => h.1
  rintro _ renamed ⟨hshort, hadded, hnames⟩
  obtain ⟨_, id, _, hview⟩ := hadded.added
  refine Action.Ensures.bind_of (Table.ensures_start hadded.sound hnames
    (View.file?_of_eq_put hview) wellFormed trivial) ?_ ?_
  · rintro table _ ⟨hopened, _, _, rfl⟩
    exact Action.ensures_pure ⟨hadded.sound, hopened⟩
  · -- What could be renamed has a path that is short enough for opening it.
    rintro e _ ⟨_, hlong | unsteady, _⟩
    · exact absurd hlong hshort
    · exact absurd Conduct.steady_own unsteady

/-- A memtable that any stack of tables takes, on any host. Its keys ascend, the length of each is
what four bytes say, and no value is as long as a tombstone is marked. A write-out that succeeds
puts a table on the stack that answers as the memtable does, and one that fails, fails with what one
of its calls was answered with. -/
structure WritesOut (memtable : Memtable) : Prop where
  ascending : memtable.toList.Pairwise (·.1 < ·.1)
  key : ∀ entry ∈ memtable.toList,
    Bytes.ofLittleEndian (Bytes.littleEndian 4 entry.1.length) = entry.1.length
  value : ∀ entry ∈ memtable.toList, ∀ value ∈ entry.2, value.length < 0xFFFFFFFF
  flush : ∀ {may host after stack stack' result}, host.Sound → memtable.isEmpty = false →
    (TableStack.flush stack memtable).Endures may host (result, stack') after →
    (∃ summary table, result = .ok summary ∧ stack'.tables = table :: stack.tables ∧
      ∀ queries, (Table.askAll table queries).run after =
        (queries.map (Table.answer memtable.toList), after)) ∨
    ∃ fault, result = .error (.io (.system fault)) ∧ stack'.tables = stack.tables ∧
      (TableStack.flush stack memtable).Meets may fault host (result, stack') after

theorem flush_wellFormed (sound : host.Sound) (wellFormed : WellFormed memtable.toList)
    (nonempty : memtable.isEmpty = false)
    (run : (stack.flush memtable).Endures may host (result, stack') after) :
    (∃ summary table, result = .ok summary ∧ stack'.tables = table :: stack.tables ∧
      after.Sound ∧ table.Opened after.view memtable.toList) ∨
    ∃ fault, result = .error (.io (.system fault)) ∧ stack'.tables = stack.tables ∧
      (stack.flush memtable).Meets may fault host (result, stack') after := by
  unfold flush at run ⊢
  simp only [nonempty] at run ⊢
  -- Behind the writing of the table nothing is asked of the host any more.
  obtain ⟨written, between, hwrite, hrest⟩ := run.of_bind
  have hensures := @ensures_writeTable_wellFormed _ stack.directory _ _ stack.capacity _ sound rfl
    stack.nextId.toNat_lt wellFormed
  rcases (strict_writeTable _ _ _ _).ensured hensures hwrite with
    ⟨⟨summary, table⟩, rfl, hsound, hopened⟩ | ⟨e, rfl, hcause⟩
  · cases hrest
    exact Or.inl ⟨summary, table, rfl, rfl, hsound, hopened⟩
  · cases hrest
    have hsystem : e.OfSystem := by
      rcases hcause with h | ⟨_, h⟩ <;> exact h
    obtain ⟨fault, rfl⟩ := hsystem
    exact Or.inr ⟨fault, rfl, rfl, ((candid_writeTable _ _ _ _).met hwrite).bind .done⟩

theorem writesOut (wellFormed : WellFormed memtable.toList) : WritesOut memtable where
  ascending := wellFormed.ascending
  key entry hmem := Bytes.ofLittleEndian_littleEndian_of_lt (wellFormed.key entry hmem)
  value := wellFormed.value
  flush sound nonempty run := by
    refine (flush_wellFormed sound wellFormed nonempty run).imp_left ?_
    rintro ⟨summary, table, hresult, htables, hsound, hopened⟩
    refine ⟨summary, table, hresult, htables, fun queries => ?_⟩
    have hanswers := Script.Ensures.run (Table.ensures_askAll hsound hopened queries)
    exact Prod.ext hanswers.1 hanswers.2

end TableStack

end OrderedStore
