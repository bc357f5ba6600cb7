import OrderedStore.Proofs.Engine.Scan
import OrderedStore.Proofs.TableStack.Acceptance

/-!
# Reads that are refused

Point reads and scans pass on every refusal of a call. So what they show, they show as they would if
no call were refused: it stands in the memtable or in a table.

Main statements: `Portable.strict_get`, `Portable.strict_scan`, `Portable.exists_of_get`,
`Portable.exists_of_scan`.
-/

namespace OrderedStore

/-! ## Tables -/

namespace Table

theorem strict_readExactly (handle : Handle) (offset count : Nat) :
    (Action.readExactly handle offset count).Strict :=
  Action.passes_strict.readExactly Action.strict_read handle offset count

theorem strict_readLengths (table : Table) (offset : Nat) : (table.readLengths offset).Strict :=
  (strict_readExactly _ _ _).bind fun _ => Action.strict_pure _

theorem strict_readValue (table : Table) (offset length : Nat) :
    (table.readValue offset length).Strict := by
  unfold readValue
  split
  · exact Action.strict_pure _
  · exact (strict_readExactly _ _ _).bind fun _ => Action.strict_pure _

theorem strict_find? (table : Table) (key : Bytes) : (table.find? key).Strict := by
  unfold find?
  split
  · exact Action.strict_pure _
  · exact (strict_readLengths table _).bind fun _ =>
      (strict_readValue table _ _).bind fun _ => Action.strict_pure _

theorem strict_readEntry (table : Table) (offset : Nat) : (table.readEntry offset).Strict :=
  (strict_readLengths table offset).bind fun _ => (strict_readExactly _ _ _).bind fun _ =>
    (strict_readValue table _ _).bind fun _ => Action.strict_pure _

/-- The entries that were read, last one first, and those behind them. -/
def gather (table : Table) (read : List TableEntry) (limit offset : Nat) :
    Action (List TableEntry) := do
  let items ← Action.ofScript (table.itemsBehind (read.map .ok) limit offset)
  ExceptT.mk (pure (entriesOf items))

theorem entriesOf_reverse (read : List TableEntry) :
    entriesOf (read.map .ok).reverse = .ok read.reverse := by
  rw [← List.map_reverse, entriesOf_map_ok]

/-- A failure behind entries is the failure of them all. -/
theorem entriesOf_failed (read : List TableEntry) (e : Error) :
    entriesOf (.error e :: read.map .ok).reverse = .error e := by
  have hfront := entriesOf_reverse read
  unfold entriesOf at hfront ⊢
  rw [List.reverse_cons, List.mapM_append, hfront]
  rfl

theorem run_gather (table : Table) (read : List TableEntry) (limit offset : Nat) :
    (table.gather read limit offset).run =
      table.itemsBehind (read.map .ok) limit offset >>= fun items => pure (entriesOf items) := by
  simp only [gather, Action.ofScript, ExceptT.run_bind, ExceptT.run_lift, bind_map_left]
  rfl

/-- Entries are gathered one after the other, and a failure ends this. -/
theorem gather_succ (table : Table) (read : List TableEntry) (limit offset : Nat) :
    table.gather read (limit + 1) offset =
      if table.layout.dataEnd ≤ offset then pure read.reverse
      else table.readEntry offset >>= fun found =>
        table.gather (found.1 :: read) limit found.2 := by
  refine ExceptT.ext ?_
  rw [run_gather, itemsBehind]
  split
  · exact congrArg Script.done (entriesOf_reverse read)
  rw [bind_assoc]
  refine bind_congr fun found => ?_
  rcases found with e | ⟨entry, next⟩
  · exact congrArg Script.done (entriesOf_failed read e)
  · exact (run_gather table (entry :: read) limit next).symm

theorem strict_gather (table : Table) (read : List TableEntry) (limit offset : Nat) :
    (table.gather read limit offset).Strict := by
  induction limit generalizing read offset with
  | zero =>
    have hread : table.gather read 0 offset = pure read.reverse :=
      congrArg (fun found => (ExceptT.mk (pure found) : Action _)) (entriesOf_reverse read)
    rw [hread]
    exact Action.strict_pure _
  | succ limit ih =>
    rw [gather_succ]
    split
    · exact Action.strict_pure _
    · exact (strict_readEntry table offset).bind fun _ => ih _ _

theorem strict_scan (table : Table) (start : Bytes) (limit : Nat) :
    (table.scan start limit).Strict := by
  unfold scan
  split
  · exact Action.strict_pure _
  · exact (Action.strict_read _ _ _).bind fun _ => strict_gather table [] limit _

end Table

namespace TableStack

theorem strict_findIn (key : Bytes) (tables : List Table) : (findIn key tables).Strict := by
  induction tables with
  | nil => exact Action.strict_pure _
  | cons table older ih =>
    unfold findIn
    split
    · exact ih
    · refine (Table.strict_find? table key).bind fun found => ?_
      split
      · exact ih
      · exact Action.strict_pure _

theorem strict_scan (stack : TableStack) (start : Bytes) (limit : Nat) :
    (stack.scan start limit).Strict := by
  unfold TableStack.scan
  generalize stack.tables = tables
  induction tables with
  | nil => exact Action.strict_pure _
  | cons table older ih =>
    rw [List.mapM_cons]
    exact (Table.strict_scan table start limit).bind fun _ => ih.bind fun _ =>
      Action.strict_pure _

end TableStack

/-! ## Stores -/

namespace Portable

variable {may : Host → Call → Prop} {host after : Host} {store : Portable}
  {shelf : List (List TableEntry)}

theorem strict_get (store : Portable) (key : Bytes) : (store.get key).Strict := by
  unfold Portable.get
  split
  · exact Action.strict_pure _
  · exact (TableStack.strict_findIn key _).bind fun _ => Action.strict_pure _

theorem strict_scan (store : Portable) (start : Bytes) (limit : Nat) :
    (store.scan start limit).Strict := by
  unfold Portable.scan
  generalize store.scanRounds = rounds
  induction rounds generalizing start with
  | zero => exact Action.strict_pure _
  | succ rounds ih =>
    unfold scanWithin
    have hsources : (store.sources start (max limit 1)).Strict :=
      (TableStack.strict_scan _ _ _).bind fun _ => Action.strict_pure _
    refine hsources.bind fun sources => ?_
    simp only
    split
    · exact ih _
    · exact Action.strict_pure _

/-- What the newest source says stands in a source. -/
theorem exists_of_newest {sources : List (List TableEntry)} {key : Bytes} {value? : Option Bytes}
    (h : Merge.newest sources key = some value?) : ∃ source ∈ sources, (key, value?) ∈ source := by
  obtain ⟨source, hsource, hmem⟩ := List.mem_flatten.1 (KeyMap.mem_of_lookup_eq_some h)
  exact ⟨source, hsource, hmem⟩

section Shown

variable (sound : host.Sound) (opened : TableStack.Opened store.tables.tables host.view shelf)
include sound opened

/-- A value that is found stands in the memtable or in a table. -/
theorem exists_of_get {key value : Bytes}
    (run : (store.get key).run.Endures may host (.ok (some value)) after) :
    ∃ source ∈ store.sourcesWith shelf, (key, some value) ∈ source := by
  have hplain := (strict_get store key).ok run
  rw [perform_get sound opened] at hplain
  exact exists_of_newest (Option.join_eq_some_iff.1 (Except.ok.inj (Prod.mk.inj hplain).1))

/-- So does what a scan shows. -/
theorem exists_of_scan {start : Bytes} {limit : Nat} {page : List (Bytes × Bytes)}
    (run : (store.scan start limit).run.Endures may host (.ok page) after) {key value : Bytes}
    (mem : (key, value) ∈ page) :
    ∃ source ∈ store.sourcesWith shelf, (key, some value) ∈ source := by
  have hplain := (strict_scan store start limit).ok run
  rw [perform_scan sound opened] at hplain
  obtain ⟨hinitial, -, -⟩ := Merge.scanOf_spec (ascending_sourcesWith opened)
    (show 0 < max limit 1 by omega) (countFrom_lt_scanRounds start opened)
  rw [Except.ok.inj (Prod.mk.inj hplain).1] at hinitial
  exact exists_of_newest (Merge.mem_liveFrom.1 (hinitial.subset mem)).2

end Shown

end Portable

end OrderedStore
