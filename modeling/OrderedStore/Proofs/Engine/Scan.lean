import Mathlib.Data.List.Forall2
import OrderedStore.Engine.Portable
import OrderedStore.Proofs.Engine.Merge
import OrderedStore.Proofs.Table.Reading

/-!
# Scans of the portable engine

The memtable and the tables of a store are the sources of its answers, the newest first. A point
read gives what the first source that knows the key says, and a scan gives the pairs that point
reads give.

Main statement: `Portable.scan_agrees_with_get`.
-/

namespace OrderedStore

variable {conduct : Conduct} {stop : Host → Prop} {host : Host}

namespace Table

variable {table : Table} {entries : List TableEntry} {key : Bytes}

/-- A table knows no key outside its bounds. -/
theorem Opened.lookup_eq_none {v : View} (opened : table.Opened v entries)
    (h : table.mightContain key = false) : KeyMap.lookup key entries = none := by
  have hnone := find?_offsets_eq_none h
  rw [KeyMap.find?, opened.layout, toList_offsets opened.wellFormed,
    KeyMap.lookup_eq_none_iff, map_fst_offsetsFrom] at hnone
  exact KeyMap.lookup_eq_none_iff.2 hnone

end Table

/-- Open tables on the files of lists of entries. -/
def TableStack.Opened (tables : List Table) (v : View) (shelf : List (List TableEntry)) : Prop :=
  List.Forall₂ (fun table entries => table.Opened v entries) tables shelf

namespace TableStack

variable {tables : List Table} {shelf : List (List TableEntry)}

theorem exists_opened {v : View} (h : ∀ table ∈ tables, ∃ entries, table.Opened v entries) :
    ∃ shelf, Opened tables v shelf := by
  induction tables with
  | nil => exact ⟨[], .nil⟩
  | cons table tables ih =>
    obtain ⟨⟨entries, hentries⟩, hrest⟩ := List.forall_mem_cons.1 h
    obtain ⟨shelf, hshelf⟩ := ih hrest
    exact ⟨entries :: shelf, .cons hentries hshelf⟩

theorem Opened.ascending {v : View} (opened : Opened tables v shelf) : Merge.Ascending shelf := by
  induction opened with
  | nil => simp [Merge.Ascending]
  | cons hfirst _ ih =>
    intro source hsource
    rcases List.mem_cons.1 hsource with rfl | hrest
    · exact hfirst.wellFormed.ascending
    · exact ih source hrest

theorem ensures_findIn (sound : host.Sound) (opened : Opened tables host.view shelf) (key : Bytes)
    (same : stop host) :
    (findIn key tables).Ensures conduct stop
      (fun found after => found = Merge.newest shelf key ∧ after = host)
      (fun _ _ => False) host := by
  induction opened with
  | nil => exact Action.ensures_pure ⟨rfl, rfl⟩
  | @cons table entries tables shelf hfirst _ ih =>
    have hnewest : Merge.newest (entries :: shelf) key =
        (KeyMap.lookup key entries).or (Merge.newest shelf key) := by
      rw [Merge.newest, List.flatten_cons, KeyMap.lookup_append]
      rfl
    rw [hnewest]
    unfold findIn
    by_cases hmight : table.mightContain key = true
    · simp only [hmight, Bool.not_true]
      refine Action.Ensures.bind_of (Table.ensures_find? sound hfirst key same) ?_ fun _ _ h => h
      rintro found _ ⟨rfl, rfl⟩
      cases KeyMap.lookup key entries with
      | none => exact ih
      | some value? => exact Action.ensures_pure ⟨rfl, rfl⟩
    · have hmight : table.mightContain key = false := by simpa using hmight
      rw [hfirst.lookup_eq_none hmight]
      simp only [hmight, Bool.not_false, if_true]
      exact ih

theorem dropWhile_eq_fromKey {entries : List TableEntry} (sorted : entries.Pairwise (·.1 < ·.1))
    (start : Bytes) : entries.dropWhile (·.1 < start) = Merge.fromKey start entries :=
  KeyMap.entriesFrom_eq_filter ⟨entries, sorted⟩ start

theorem ensures_scan {stack : TableStack} (sound : host.Sound)
    (opened : Opened stack.tables host.view shelf) (start : Bytes) (limit : Nat)
    (same : stop host) :
    (stack.scan start limit).Ensures conduct stop
      (fun found after => found = shelf.map (Merge.cut start limit) ∧ after = host)
      (fun _ _ => False) host := by
  unfold TableStack.scan
  generalize stack.tables = tables at opened
  induction opened with
  | nil => exact Action.ensures_pure ⟨rfl, rfl⟩
  | @cons table entries tables shelf hfirst _ ih =>
    rw [List.mapM_cons]
    refine Action.Ensures.bind_of (Table.ensures_scan sound hfirst start limit same) ?_
      fun _ _ h => h
    rintro found _ ⟨rfl, rfl⟩
    refine Action.Ensures.bind_of ih ?_ fun _ _ h => h
    rintro rest _ ⟨rfl, rfl⟩
    rw [dropWhile_eq_fromKey hfirst.wellFormed.ascending]
    exact Action.ensures_pure ⟨rfl, rfl⟩

theorem Opened.length_le_dataSize {v : View} {stack : TableStack}
    (opened : Opened stack.tables v shelf) : shelf.flatten.length ≤ stack.dataSize := by
  unfold dataSize
  generalize stack.tables = tables at opened
  induction opened with
  | nil => exact Nat.le_refl _
  | @cons table entries tables shelf hfirst _ ih =>
    have hlength := Table.length_le_length_dataBytes entries
    have hend : table.layout.dataEnd = Table.headerSize + (Table.dataBytes entries).length := by
      rw [hfirst.layout]
      rfl
    rw [List.flatten_cons, List.length_append, List.foldr_cons, hend]
    omega

end TableStack

namespace Portable

variable {store : Portable} {shelf : List (List TableEntry)} {key : Bytes}

/-- The sources of the answers of a store, newest first. -/
def sourcesWith (store : Portable) (shelf : List (List TableEntry)) : List (List TableEntry) :=
  store.memtable.toList :: shelf

theorem ascending_sourcesWith {v : View} (opened : TableStack.Opened store.tables.tables v shelf) :
    Merge.Ascending (store.sourcesWith shelf) := by
  intro source hsource
  rcases List.mem_cons.1 hsource with rfl | hrest
  · exact store.memtable.entries.ascending
  · exact opened.ascending source hrest

theorem newest_sourcesWith (store : Portable) (shelf : List (List TableEntry)) (key : Bytes) :
    Merge.newest (store.sourcesWith shelf) key =
      (store.memtable.find? key).or (Merge.newest shelf key) := by
  rw [Merge.newest, sourcesWith, List.flatten_cons, KeyMap.lookup_append]
  rfl

/-- A point read gives what the newest source that knows the key says. -/
theorem ensures_get (sound : host.Sound)
    (opened : TableStack.Opened store.tables.tables host.view shelf) (key : Bytes)
    (same : stop host) :
    (store.get key).Ensures conduct stop
      (fun found after => found = (Merge.newest (store.sourcesWith shelf) key).join ∧ after = host)
      (fun _ _ => False) host := by
  rw [newest_sourcesWith]
  unfold Portable.get
  cases store.memtable.find? key with
  | some value? => exact Action.ensures_pure ⟨rfl, rfl⟩
  | none =>
    refine Action.Ensures.bind_of (TableStack.ensures_findIn sound opened key same) ?_
      fun _ _ h => h
    rintro found _ ⟨rfl, rfl⟩
    exact Action.ensures_pure ⟨rfl, rfl⟩

/-- The cut sources of a round. -/
def cutsWith (store : Portable) (shelf : List (List TableEntry)) (start : Bytes) (limit : Nat) :
    List (List TableEntry) :=
  (store.sourcesWith shelf).map (Merge.cut start limit)

theorem ensures_sources (sound : host.Sound)
    (opened : TableStack.Opened store.tables.tables host.view shelf) (start : Bytes) (limit : Nat)
    (same : stop host) :
    (store.sources start limit).Ensures conduct stop
      (fun found after => found = store.cutsWith shelf start limit ∧ after = host)
      (fun _ _ => False) host := by
  have hmemtable : store.memtable.range start limit =
      Merge.cut start limit store.memtable.toList := by
    unfold Memtable.range
    rw [KeyMap.entriesFrom_eq_filter]
    rfl
  unfold sources
  rw [hmemtable]
  refine Action.Ensures.bind_of (TableStack.ensures_scan sound opened start limit same) ?_
    fun _ _ h => h
  rintro found _ ⟨rfl, rfl⟩
  exact Action.ensures_pure ⟨rfl, rfl⟩

theorem ensures_scanWithin (sound : host.Sound)
    (opened : TableStack.Opened store.tables.tables host.view shelf) {limit : Nat} (rounds : Nat)
    (start : Bytes) (same : stop host) :
    (store.scanWithin limit rounds start).Ensures conduct stop
      (fun page after => page = Merge.scanOf (store.sourcesWith shelf) limit rounds start ∧
        after = host)
      (fun _ _ => False) host := by
  induction rounds generalizing start with
  | zero => exact Action.ensures_pure ⟨rfl, rfl⟩
  | succ rounds ih =>
    unfold scanWithin
    refine Action.Ensures.bind_of (ensures_sources sound opened start limit same) ?_
      fun _ _ h => h
    rintro found _ ⟨rfl, rfl⟩
    unfold Merge.scanOf cutsWith
    simp only
    generalize Merge.horizon? limit ((store.sourcesWith shelf).map (Merge.cut start limit)) =
      horizon?
    generalize (Merge.live (Merge.merged horizon?
      ((store.sourcesWith shelf).map (Merge.cut start limit)))).take limit = page
    cases horizon? with
    | none => exact Action.ensures_pure ⟨rfl, rfl⟩
    | some low =>
      cases page with
      | nil => exact ih _
      | cons pair page => exact Action.ensures_pure ⟨rfl, rfl⟩

/-- There are more rounds than entries. -/
theorem countFrom_lt_scanRounds {v : View} (start : Bytes)
    (opened : TableStack.Opened store.tables.tables v shelf) :
    Merge.countFrom (store.sourcesWith shelf) start < store.scanRounds := by
  have hfilter : Merge.countFrom (store.sourcesWith shelf) start ≤
      (store.sourcesWith shelf).flatten.length := List.length_filter_le ..
  have hlength : (store.sourcesWith shelf).flatten.length =
      store.memtable.count + shelf.flatten.length := by
    rw [sourcesWith, List.flatten_cons, List.length_append]
    rfl
  have := opened.length_le_dataSize
  unfold scanRounds
  omega

/-! ## Scans and point reads -/

/-- The live pairs of a store from a key on: in ascending order, and those that point reads give. -/
structure Lists (store : Portable) (host : Host) (start : Bytes) (pairs : List (Bytes × Bytes)) :
    Prop where
  ascending : pairs.Pairwise (·.1 < ·.1)
  mem_iff : ∀ key value, (key, value) ∈ pairs ↔
    start ≤ key ∧ (store.get key).perform host = (.ok (some value), host)

/-- The page that a round finds. -/
def pageOf (limit : Nat) (sources : List (List TableEntry)) : List (Bytes × Bytes) :=
  (Merge.live (Merge.merged (Merge.horizon? limit sources) sources)).take limit

/-- The rounds of a scan, whatever their number: as long as nothing is alive up to the horizon, the
scan goes on behind it. -/
inductive Scans (store : Portable) (host : Host) (limit : Nat) :
    Bytes → List (Bytes × Bytes) → Prop where
  | found {start : Bytes} {sources : List (List TableEntry)} :
      (store.sources start limit).perform host = (.ok sources, host) →
      Merge.horizon? limit sources = none ∨ pageOf limit sources ≠ [] →
      Scans store host limit start (pageOf limit sources)
  | behind {start low : Bytes} {sources : List (List TableEntry)} {page : List (Bytes × Bytes)} :
      (store.sources start limit).perform host = (.ok sources, host) →
      Merge.horizon? limit sources = some low → pageOf limit sources = [] →
      Scans store host limit low.successor page → Scans store host limit start page

/-- The pages of a store from a key on: each begins behind the last key of the one before, up to
one that is empty. -/
inductive Pages (store : Portable) (host : Host) (limit : Nat) :
    Bytes → List (List (Bytes × Bytes)) → Prop where
  | last {start : Bytes} :
      (store.scan start limit).perform host = (.ok [], host) → Pages store host limit start []
  | next {start key value : Bytes} {page : List (Bytes × Bytes)}
      {pages : List (List (Bytes × Bytes))} :
      (store.scan start limit).perform host = (.ok page, host) →
      page.getLast? = some (key, value) → Pages store host limit key.successor pages →
      Pages store host limit start (page :: pages)

variable {start : Bytes} {limit : Nat}

theorem perform_get (sound : host.Sound)
    (opened : TableStack.Opened store.tables.tables host.view shelf) (key : Bytes) :
    (store.get key).perform host =
      (.ok (Merge.newest (store.sourcesWith shelf) key).join, host) :=
  Action.perform_of_ensures (ensures_get sound opened key trivial)

theorem perform_scan (sound : host.Sound)
    (opened : TableStack.Opened store.tables.tables host.view shelf) (start : Bytes)
    (limit : Nat) :
    (store.scan start limit).perform host =
      (.ok (Merge.scanOf (store.sourcesWith shelf) (max limit 1) store.scanRounds start),
        host) :=
  Action.perform_of_ensures (ensures_scanWithin sound opened _ _ trivial)

theorem lists_liveFrom (sound : host.Sound)
    (opened : TableStack.Opened store.tables.tables host.view shelf) (start : Bytes) :
    store.Lists host start (Merge.liveFrom (store.sourcesWith shelf) start) where
  ascending := Merge.ascending_liveFrom _ _
  mem_iff key value := by
    rw [Merge.mem_liveFrom, perform_get sound opened, Prod.mk.injEq, Except.ok.injEq,
      Option.join_eq_some_iff, and_iff_left rfl]

/-- The rounds come to an end: each that leads to another one leaves an entry behind. -/
theorem scans_scanOf (sound : host.Sound)
    (opened : TableStack.Opened store.tables.tables host.view shelf) {rounds : Nat}
    (enough : Merge.countFrom (store.sourcesWith shelf) start < rounds) :
    store.Scans host limit start
      (Merge.scanOf (store.sourcesWith shelf) limit rounds start) := by
  induction rounds generalizing start with
  | zero => omega
  | succ rounds ih =>
    have hsources : (store.sources start limit).perform host =
        (.ok (store.cutsWith shelf start limit), host) :=
      Action.perform_of_ensures (ensures_sources sound opened start limit trivial)
    unfold Merge.scanOf
    simp only
    split
    · rename_i low hlow hpage
      have hlt := Merge.countFrom_successor_lt hlow
      exact .behind hsources hlow hpage (ih (by omega))
    · rename_i page hpage
      refine .found hsources ?_
      cases hhorizon : Merge.horizon? limit (store.cutsWith shelf start limit) with
      | none => exact Or.inl hhorizon
      | some low => exact Or.inr (hpage low hhorizon)

/-- What follows a page of the live pairs are the live pairs behind its last key. -/
theorem liveFrom_behind {sources : List (List TableEntry)} {key value : Bytes}
    {page : List (Bytes × Bytes)} (hinitial : page <+: Merge.liveFrom sources start)
    (hlast : page.getLast? = some (key, value)) :
    Merge.liveFrom sources start = page ++ Merge.liveFrom sources key.successor := by
  obtain ⟨rest, hrest⟩ := hinitial
  have hsorted := Merge.ascending_liveFrom sources start
  rw [← hrest] at hsorted ⊢
  obtain ⟨hpage, hafter, hcross⟩ := List.pairwise_append.1 hsorted
  have hmem : (key, value) ∈ page := List.mem_of_getLast? hlast
  have hfrom : ∀ pair, pair ∈ page ++ rest ↔
      start ≤ pair.1 ∧ Merge.newest sources pair.1 = some (some pair.2) := by
    intro pair
    rw [hrest]
    exact Merge.mem_liveFrom
  have hstart := ((hfrom (key, value)).1 (List.mem_append_left _ hmem)).1
  congr 1
  refine KeyMap.eq_of_ascending_of_mem_iff hafter (Merge.ascending_liveFrom _ _) ?_
  rintro ⟨other, data⟩
  rw [Merge.mem_liveFrom, Bytes.successor_le_iff]
  constructor
  · intro hother
    exact ⟨hcross _ hmem _ hother, ((hfrom _).1 (List.mem_append_right _ hother)).2⟩
  · rintro ⟨hlt, hnewest⟩
    have hall := (hfrom (other, data)).2
      ⟨Std.le_trans hstart (Std.le_of_lt hlt), hnewest⟩
    rcases List.mem_append.1 hall with hin | hbehind
    · -- No key of the page lies behind its last one.
      have hle : other ≤ key := KeyMap.le_of_getLast? hpage hin hlast
      exact absurd hlt (List.not_lt.2 hle)
    · exact hbehind

/-- Pages put together are the live pairs. -/
theorem Pages.flatten_eq {pages : List (List (Bytes × Bytes))} (sound : host.Sound)
    (opened : TableStack.Opened store.tables.tables host.view shelf)
    (paged : store.Pages host limit start pages) :
    pages.flatten = Merge.liveFrom (store.sourcesWith shelf) start := by
  have hspec := fun start => Merge.scanOf_spec (ascending_sourcesWith opened)
    (show 0 < max limit 1 by omega) (countFrom_lt_scanRounds start opened)
  induction paged with
  | @last start hscan =>
    rw [perform_scan sound opened] at hscan
    have hpage := (Prod.mk.inj hscan).1
    rw [List.flatten_nil]
    exact ((hspec start).2.2 (Except.ok.inj hpage)).symm
  | @next start key value page pages hscan hlast _ ih =>
    rw [perform_scan sound opened] at hscan
    have hpage := Except.ok.inj (Prod.mk.inj hscan).1
    have hinitial := (hspec start).1
    rw [hpage] at hinitial
    rw [List.flatten_cons, ih, ← liveFrom_behind hinitial hlast]

theorem exists_pages (sound : host.Sound)
    (opened : TableStack.Opened store.tables.tables host.view shelf) (start : Bytes)
    (limit : Nat) : ∃ pages, store.Pages host limit start pages := by
  have hspec := fun start => Merge.scanOf_spec (ascending_sourcesWith opened)
    (show 0 < max limit 1 by omega) (countFrom_lt_scanRounds start opened)
  have hscan := fun start => perform_scan sound opened start limit
  -- Every page takes pairs away from the list.
  generalize hcount : (Merge.liveFrom (store.sourcesWith shelf) start).length = count
  induction count using Nat.strongRecOn generalizing start with
  | _ count ih =>
    have hinitial := (hspec start).1
    have hstart := hscan start
    generalize Merge.scanOf (store.sourcesWith shelf) (max limit 1) store.scanRounds start =
      page at hinitial hstart
    cases hlast : page.getLast? with
    | none =>
      rw [List.getLast?_eq_none_iff.1 hlast] at hstart
      exact ⟨[], .last hstart⟩
    | some pair =>
      obtain ⟨key, value⟩ := pair
      have hlength := congrArg List.length (liveFrom_behind hinitial hlast)
      rw [List.length_append] at hlength
      have hpos : 0 < page.length := by
        obtain ⟨front, rfl⟩ := List.getLast?_eq_some_iff.1 hlast
        simp
      obtain ⟨pages, hpages⟩ := ih _ (by omega) key.successor rfl
      exact ⟨page :: pages, .next hstart hlast hpages⟩

/-- Scans and point reads agree: there is an ascending list of the pairs that point reads give, a
scan comes to an end with a first part of it, which is empty only if the list is, and the pages of
any size make up the list. -/
theorem scan_agrees_with_get (sound : host.Sound)
    (opened : ∀ table ∈ store.tables.tables, ∃ entries, table.Opened host.view entries)
    (start : Bytes) (limit : Nat) :
    ∃ live, store.Lists host start live ∧
      (∃ page, (store.scan start limit).perform host = (.ok page, host) ∧
        store.Scans host (max limit 1) start page ∧ page <+: live ∧
        page.length ≤ max limit 1 ∧ (page = [] → live = [])) ∧
      (∃ pages, store.Pages host limit start pages) ∧
      ∀ pages, store.Pages host limit start pages → pages.flatten = live := by
  obtain ⟨shelf, opened⟩ := TableStack.exists_opened opened
  have enough := countFrom_lt_scanRounds start opened
  obtain ⟨hinitial, hlength, hempty⟩ := Merge.scanOf_spec (ascending_sourcesWith opened)
    (show 0 < max limit 1 by omega) enough
  exact ⟨_, lists_liveFrom sound opened start,
    ⟨_, perform_scan sound opened start limit, scans_scanOf sound opened enough, hinitial,
      hlength, hempty⟩,
    exists_pages sound opened start limit, fun _ => Pages.flatten_eq sound opened⟩

/-- A store whose memtable shadows one key of a table and whose table holds a tombstone. -/
theorem scan_agrees_with_get_shadowed :
    ∃ (store : Portable) (host : Host), store.memtable.toList = [([2], some [5])] ∧
      (∃ table, store.tables.tables = [table] ∧
        table.Opened host.view [([1], none), ([2], some [3])]) ∧
      ∃ live, store.Lists host [] live ∧
        (∃ page, (store.scan [] 0).perform host = (.ok page, host) ∧
          store.Scans host 1 [] page ∧ page <+: live ∧ page.length ≤ 1 ∧
          (page = [] → live = [])) ∧
        (∃ pages, store.Pages host 0 [] pages) ∧
        ∀ pages, store.Pages host 0 [] pages → pages.flatten = live := by
  have hwellFormed : Table.WellFormed [([1], none), ([2], some [3])] :=
    ⟨by decide, by decide, by simp; decide⟩
  have hfree : Host.empty.disk.node? ([] ++ ["t"]) = none := by decide
  have hmade := Host.sound_empty.createFile hfree (by decide)
  have hcontent :=
    Content.toList_ofArray (Table.image [([1], none), ([2], some [3])]).toArray
  have hsize : (Content.ofArray (Table.image [([1], none), ([2], some [3])]).toArray).size ≤
      Disk.sizeLimit := by
    rw [← Content.length_toList, hcontent]
    decide
  have hwritten := hmade.1.setContent (View.file?_of_eq_put hmade.2) hsize
  have hfile := View.file?_of_eq_put hwritten.2
  rw [hcontent] at hfile
  let table : Table :=
    { path := .ofText "/t", handle := ⟨1⟩, layout := Table.layoutOf [([1], none), ([2], some [3])] }
  let store : Portable :=
    { directory := .ofText "/", lockFile := ⟨0⟩
      log := {
        path := .ofText "/wal.log", handle := ⟨0⟩, nextLsn := 1, policy := .everyWrite
        unsynced := 0, committed := 0 }
      memtable := Memtable.empty.apply (.put [2] [5])
      tables := { directory := .ofText "/", tables := [table], nextId := 2, capacity := 0 }
      writeBufferSize := 0, reporting := false }
  have hopened := @Table.Opened.mk table _ _ hwellFormed ⟨_, hfile⟩ rfl
  refine ⟨store, _, rfl, ⟨table, rfl, hopened⟩, scan_agrees_with_get hwritten.1 ?_ [] 0⟩
  intro other hmem
  rw [List.mem_singleton.1 hmem]
  exact ⟨_, hopened⟩

end Portable

end OrderedStore
