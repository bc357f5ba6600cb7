import OrderedStore.Proofs.Table.Parts
import OrderedStore.TableStack

/-!
# Tables, part by part

Tables are read and written by actions that are put together from calls of a few kinds. What is
passed on from the parts of an action to the whole, and holds of these calls and of the errors of
tables, holds of all these actions.

Main definitions:

- `Error.OfTables`: the errors of tables.
- `Action.Passes`: what is passed on from parts to the whole.

Main statements: `Action.Passes.startTable`, `Action.Passes.writeTable`,
`Action.Passes.startTables`.
-/

namespace OrderedStore

/-- The errors that reading and writing tables ends with, where no call was refused. -/
def Error.OfTables : Error → Prop
  | .io .endOfFile | .storage (.tooSmall _ _) | .storage (.badMagic _)
  | .storage (.unsupportedVersion _) | .storage (.indexOutside _ _) | .storage (.dataChecksum _)
  | .storage (.truncatedIndex _) | .storage .unorderedKeys | .storage .valueTooLarge => True
  | _ => False

theorem Table.Ends.ofTables_of_read {file : String} {size : Nat} {header footer : Bytes}
    {fault : StorageFault} (h : Ends.read file size header footer = .error fault) :
    (Error.storage fault).OfTables := by
  unfold Ends.read at h
  simp only at h
  split at h
  · cases h
    trivial
  split at h
  · cases h
    trivial
  split at h
  · cases h
    trivial
  · cases h

theorem Table.Layout.ofTables_of_ofIndex {file : String} {ends : Ends} {index : Bytes}
    {fault : StorageFault} (h : Layout.ofIndex file ends index = .error fault) :
    (Error.storage fault).OfTables := by
  unfold Layout.ofIndex at h
  split at h
  · cases h
    trivial
  · cases h

theorem Table.Draft.ofTables_of_refusal? {draft : Draft} {key : Bytes} {value? : Option Bytes}
    {fault : StorageFault} (h : draft.refusal? key value? = some fault) :
    (Error.storage fault).OfTables := by
  unfold refusal? at h
  split at h
  · cases h
    trivial
  split at h
  · cases h
    trivial
  · cases h

namespace TableStack

/-- Writes a memtable to the file of a draft. -/
def draftTable (directory : Path) (capacity id : Nat) (memtable : Memtable) :
    Action Table.Summary := do
  let draft ← Table.Draft.start (directory.child (draftName id)) capacity
  let full ← (draft.addAll memtable.toList).orElseCleanup draft.abandon
  full.finish

theorem writeTable_eq (directory : Path) (capacity id : Nat) (memtable : Memtable) :
    writeTable directory capacity id memtable = (do
      let summary ← draftTable directory capacity id memtable
      Action.rename (directory.child (draftName id)) (directory.child (fileName id))
      let table ← Table.start (directory.child (fileName id)) capacity
      return ({ summary with path := directory.child (fileName id) }, table)) := by
  simp only [writeTable, draftTable, bind_assoc]

end TableStack

namespace Action

/-- A property of actions that is passed on from parts to the whole, and that failures with errors
of tables have. -/
structure Passes (holds : (α : Type) → Action α → Prop) : Prop extends Composes holds where
  throw : ∀ {α : Type} {e : Error}, e.OfTables → holds α (throw e)

theorem passes_only (allowed : Call → Prop) : Passes fun _ action => action.Only allowed :=
  ⟨⟨only_pure, Only.bind⟩, fun _ => only_throw _⟩

theorem passes_brittle : Passes fun _ action => action.Brittle :=
  ⟨⟨brittle_pure, Brittle.bind⟩, fun _ => brittle_throw _⟩

namespace Passes

variable {holds : (α : Type) → Action α → Prop} (passes : Passes holds)
include passes

/-! ## Reading -/

section Reads

variable (reads : ∀ handle offset count, holds Bytes (read handle offset count))
include reads

theorem readExactly (handle : Handle) (offset count : Nat) :
    holds Bytes (Action.readExactly handle offset count) := by
  refine passes.bind (reads handle offset count) fun bytes => ?_
  split
  · exact passes.throw trivial
  · exact passes.pure _

theorem feedChunks (handle : Handle) (capacity chunks : Nat) (register : UInt32)
    (offset remaining : Nat) :
    holds UInt32 (Table.feedChunks handle capacity chunks register offset remaining) := by
  induction chunks generalizing register offset remaining with
  | zero => exact passes.pure _
  | succ chunks ih =>
    unfold Table.feedChunks
    split
    · exact passes.pure _
    · exact passes.bind (passes.readExactly reads _ _ _) fun chunk => ih _ _ _

theorem readLayout (file : String) (handle : Handle) (capacity size : Nat) (ends : Table.Ends) :
    holds Table.Layout (Table.readLayout file handle capacity size ends) := by
  unfold Table.readLayout
  refine passes.bind (passes.feedChunks reads _ _ _ _ _ _) fun register => ?_
  split
  · exact passes.throw trivial
  refine passes.bind (passes.readExactly reads _ _ _) fun index => ?_
  split
  · rename_i fault hindex
    exact passes.throw (Table.Layout.ofTables_of_ofIndex hindex)
  · exact passes.pure _

variable (opens : ∀ path, holds Handle (openFile path .read))
  (sizes : ∀ handle, holds Nat (size handle))
include opens sizes

theorem startTable (path : Path) (capacity : Nat) : holds Table (Table.start path capacity) := by
  unfold Table.start
  refine passes.bind (opens path) fun handle => passes.bind (sizes handle) fun size => ?_
  -- A file that is too small is refused before it is read.
  split
  · exact passes.throw trivial
  refine passes.bind (passes.readExactly reads _ _ _) fun header => ?_
  refine passes.bind (passes.readExactly reads _ _ _) fun footer => ?_
  split
  · rename_i fault hread
    exact passes.throw (Table.Ends.ofTables_of_read hread)
  · exact passes.bind (passes.readLayout reads _ _ _ _ _) fun layout => passes.pure _

theorem openTables (directory : Path) (capacity : Nat) (ids : List Nat) :
    holds (List Table) (TableStack.openTables directory capacity ids) := by
  induction ids with
  | nil => exact passes.pure _
  | cons id rest ih =>
    exact passes.bind (passes.startTable reads opens sizes _ _) fun _ =>
      passes.bind ih fun _ => passes.pure _

theorem startTables (makes : ∀ path, holds Unit (makeDirectories path))
    (lists : ∀ path, holds (List (String × FileKind)) (list path))
    (removes : ∀ path, holds Unit (removeFile path)) (directory : Path) (capacity : Nat) :
    holds TableStack (TableStack.start directory capacity) := by
  have hdiscover : ∀ found, holds (List Nat) (TableStack.discover directory found) := by
    intro found
    induction found with
    | nil => exact passes.pure _
    | cons entry rest ih =>
      unfold TableStack.discover
      split
      · exact passes.bind (removes _) fun _ => ih
      · exact passes.bind ih fun _ => passes.pure _
      · exact ih
  refine passes.bind (makes directory) fun _ => passes.bind (lists directory) fun entries => ?_
  refine passes.bind (hdiscover entries) fun found => ?_
  exact passes.bind (passes.openTables reads opens sizes _ _ _) fun _ => passes.pure _

end Reads

/-! ## Writing -/

section Writes

variable (writes : ∀ handle offset data, holds Unit (write handle offset data))
include writes

theorem addAll (draft : Table.Draft) (entries : List TableEntry) :
    holds Table.Draft (draft.addAll entries) := by
  induction entries generalizing draft with
  | nil => exact passes.pure _
  | cons entry rest ih =>
    refine passes.bind ?_ fun draft => ih draft
    unfold Table.Draft.add
    split
    · rename_i fault hrefusal
      exact passes.throw (Table.Draft.ofTables_of_refusal? hrefusal)
    · exact passes.bind (passes.putAll writes _ _) fun _ => passes.pure _

variable (replaces : ∀ path, holds Handle (openFile path .replace))
  (cleans : ∀ (draft : Table.Draft) entries,
    holds Table.Draft ((draft.addAll entries).orElseCleanup draft.abandon))
  (syncs : ∀ handle, holds Unit (sync handle)) (sizes : ∀ handle, holds Nat (size handle))
include replaces cleans syncs sizes

/-- A draft is a table that is given up where it fails. -/
theorem draftTable (directory : Path) (capacity id : Nat) (memtable : Memtable) :
    holds Table.Summary (TableStack.draftTable directory capacity id memtable) := by
  refine passes.bind (passes.startDraft writes replaces _ _) fun draft => ?_
  exact passes.bind (cleans draft _) fun full => passes.finishDraft writes syncs sizes full

theorem writeTable (reads : ∀ handle offset count, holds Bytes (read handle offset count))
    (opens : ∀ path, holds Handle (openFile path .read))
    (renames : ∀ source target, holds Unit (rename source target)) (directory : Path)
    (capacity id : Nat) (memtable : Memtable) :
    holds (Table.Summary × Table) (TableStack.writeTable directory capacity id memtable) := by
  rw [TableStack.writeTable_eq]
  refine passes.bind (passes.draftTable writes replaces cleans syncs sizes _ _ _ _) fun _ => ?_
  refine passes.bind (renames _ _) fun _ => ?_
  exact passes.bind (passes.startTable reads opens sizes _ _) fun _ => passes.pure _

end Writes

end Passes

end Action

/-! ## Calls of a reader -/

namespace Table

variable {allowed : Call → Prop}
  (reads : ∀ handle offset count, allowed (.read handle offset count))
include reads

theorem only_readExactly (handle : Handle) (offset count : Nat) :
    (Action.readExactly handle offset count).Only allowed :=
  (Action.passes_only allowed).readExactly (fun _ _ _ => Action.only_read (reads _ _ _)) _ _ _

theorem only_readLengths (table : Table) (offset : Nat) :
    (table.readLengths offset).Only allowed :=
  (only_readExactly reads _ _ _).bind fun _ => Action.only_pure _

theorem only_readValue (table : Table) (offset length : Nat) :
    (table.readValue offset length).Only allowed := by
  unfold readValue
  split
  · exact Action.only_pure _
  · exact (only_readExactly reads _ _ _).bind fun _ => Action.only_pure _

theorem only_find? (table : Table) (key : Bytes) : (table.find? key).Only allowed := by
  unfold find?
  split
  · exact Action.only_pure _
  · exact (only_readLengths reads table _).bind fun _ =>
      (only_readValue reads table _ _).bind fun _ => Action.only_pure _

theorem only_itemsBehind (table : Table) (read : List (Except Error TableEntry))
    (limit offset : Nat) : (table.itemsBehind read limit offset).Only allowed := by
  have hentry : ∀ offset, (table.readEntry offset).Only allowed := fun offset =>
    (only_readLengths reads table offset).bind fun _ =>
      (only_readExactly reads _ _ _).bind fun _ =>
        (only_readValue reads table _ _).bind fun _ => Action.only_pure _
  induction limit generalizing read offset with
  | zero => trivial
  | succ limit ih =>
    unfold itemsBehind
    split
    · trivial
    · refine Script.Only.bind (hentry offset) ?_
      rintro (e | ⟨entry, next⟩)
      · trivial
      · exact ih _ _

theorem only_scan (table : Table) (start : Bytes) (limit : Nat) :
    (table.scan start limit).Only allowed := by
  unfold scan
  split
  · exact Action.only_pure _
  · refine (Action.only_read (reads _ _ _)).bind fun _ => ?_
    refine (Action.only_ofScript (only_itemsBehind reads table _ _ _)).bind fun items => ?_
    trivial

end Table

end OrderedStore
