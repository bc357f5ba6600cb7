import OrderedStore.Table.Draft
import OrderedStore.Table.View
import OrderedStore.TableStack.Name

/-!
# Stacks of tables

The tables of a store stand in one directory, numbered in the order in which they were written. A
newer table decides about a key before an older one. Writing out a memtable puts a new table on the
stack: it is written under the name of a draft and renamed when it is complete.
-/

namespace OrderedStore

/-- The open tables of a directory. -/
structure TableStack where
  directory : Path
  /-- The tables, newest first. -/
  tables : List Table
  nextId : UInt64
  capacity : Nat

namespace TableStack

/-- Removes drafts that were left behind and collects the numbers of the tables. -/
def discover (directory : Path) : List (String × FileKind) → Action (List Nat)
  | [] => return []
  | (name, kind) :: rest => do
    match kind, nameKind name with
    | .file, .draft => do
      Action.removeFile (directory.child name)
      discover directory rest
    | .file, .table id => return id :: (← discover directory rest)
    -- Directories and files of other names are not touched.
    | _, _ => discover directory rest

def openTables (directory : Path) (capacity : Nat) : List Nat → Action (List Table)
  | [] => return []
  | id :: rest => do
    let table ← Table.start (directory.child (fileName id)) capacity
    return table :: (← openTables directory capacity rest)

/-- Opens the tables of a directory, which is made if it is missing. -/
def start (directory : Path) (capacity : Nat) : Action TableStack := do
  Action.makeDirectories directory
  let found ← discover directory (← Action.list directory)
  let ids := found.mergeSort (fun a b => b ≤ a)
  let tables ← openTables directory capacity ids
  return {
    directory
    tables
    -- Numbers have 64 bits, so the one behind the last is 0.
    nextId := (ids.head?.map fun id => UInt64.ofNat id + 1).getD 1
    capacity }

def count (stack : TableStack) : Nat :=
  stack.tables.length

/-- The bytes that the entries of all tables take up. -/
def dataSize (stack : TableStack) : Nat :=
  stack.tables.foldr (fun table size => table.layout.dataEnd + size) 0

/-- What the newest table that knows a key says about it. -/
def findIn (key : Bytes) : List Table → Action (Option (Option Bytes))
  | [] => return none
  | table :: older => do
    if !table.mightContain key then findIn key older
    else
      match ← table.find? key with
      | none => findIn key older
      | some value? => return some value?

def get (stack : TableStack) (key : Bytes) : Action (Option Bytes) := do
  return (← findIn key stack.tables).join

/-- Up to `limit` entries of every table from `start` on, newest table first. -/
def scan (stack : TableStack) (start : Bytes) (limit : Nat) : Action (List (List TableEntry)) :=
  stack.tables.mapM fun table => table.scan start limit

/-- Writes a memtable to a file as a draft, and gives the file its name when it is complete. -/
def writeTable (directory : Path) (capacity id : Nat) (memtable : Memtable) :
    Action (Table.Summary × Table) := do
  let path := directory.child (fileName id)
  let draftPath := directory.child (draftName id)
  let draft ← Table.Draft.start draftPath capacity
  let full ← (draft.addAll memtable.toList).orElseCleanup draft.abandon
  let summary ← full.finish
  Action.rename draftPath path
  let table ← Table.start path capacity
  return ({ summary with path }, table)

/-- Writes a memtable out as the newest table. The number of the table is used up even if that
fails. -/
def flush (stack : TableStack) (memtable : Memtable) :
    Script (Except Error Table.Summary × TableStack) := do
  if memtable.isEmpty then return (.error (.storage .emptyMemtable), stack)
  else
    -- A failed attempt may leave a draft behind, which no later attempt should meet.
    let id := stack.nextId
    let stack := { stack with nextId := id + 1 }
    match ← (writeTable stack.directory stack.capacity id.toNat memtable).run with
    | .error e => return (.error e, stack)
    | .ok (summary, table) => return (.ok summary, { stack with tables := table :: stack.tables })

end TableStack

end OrderedStore
