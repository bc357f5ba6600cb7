import OrderedStore.Proofs.Table.Guarded

/-!
# A file of any bytes is read without harm

Whatever the bytes of a file are, reading it as a table does nothing wrong with an offset, its loops
end, and what comes out is what the reader gives. A walk over all entries gives no more items than
the data has room for, and ends with the first failure.

Main definitions:

- `Guarded.Walks`: what the reader gives from an offset on.
- `Table.ReadsSafely`: reading an open table does no harm.

Main statement: `Table.read_safely`.
-/

namespace OrderedStore

namespace Guarded

open Offset Table

/-! ## Nothing goes wrong with a file -/

section File

variable {host : Host} {handle : Handle} {table : Table} {place : Location} {bytes : Bytes}
  {offset count : Nat}

/-- Bytes that were read are as many as were asked for, and stand in the file. -/
theorem facts_of_slice? {found : Bytes} (h : bytes.slice? offset count = some found) :
    offset ≤ Disk.sizeLimit ∧ found.length = count ∧ found.length ≤ bytes.length := by
  unfold Bytes.slice? at h
  simp only at h
  split at h
  · cases h
  · rename_i hinside
    cases h
    have hle : ((bytes.drop offset).take count).length ≤ bytes.length := by
      rw [List.length_take, List.length_drop]
      omega
    have hcount := List.length_take_le count (bytes.drop offset)
    exact ⟨by omega, by omega, hle⟩

variable (file : host.view.file? place = some (handle.id, bytes))

include file

theorem ensures_readExactly :
    (Action.readExactly handle offset count).Ensures .own (fun _ => True)
      (fun found after => bytes.slice? offset count = some found ∧ after = host)
      (fun _ after => after = host) host := by
  obtain ⟨content, hcontent, rfl⟩ := Action.contentOf_handle file
  refine Action.ensures_readExactly_any trivial (fun _ _ => rfl) ?_
  intro _ found hcontent' hfound
  cases hcontent.symm.trans hcontent'
  exact ⟨hfound, rfl⟩

variable (sound : host.Sound)

include sound

theorem follows_feedChunks {capacity chunks remaining : Nat} {register : UInt32}
    (enough : remaining ≤ chunks) (inside : offset + remaining ≤ bytes.length) :
    Follows (feedChunks handle capacity register offset remaining)
      (Table.feedChunks handle capacity chunks register offset remaining) host := by
  have hlimit := sound.length_le file
  have hsize : Disk.sizeLimit < UInt64.size := by decide
  induction chunks generalizing register offset remaining with
  | zero =>
    obtain rfl : remaining = 0 := by omega
    rw [feedChunks, dif_pos rfl]
    exact follows_pure register
  | succ chunks ih =>
    rw [feedChunks, Table.feedChunks]
    by_cases hnone : remaining = 0
    · rw [dif_pos hnone, if_pos hnone]
      exact follows_pure register
    rw [dif_neg hnone, if_neg hnone]
    have hpos : 0 < min remaining (max capacity 1) := by omega
    have hle : min remaining (max capacity 1) ≤ remaining := by omega
    refine follows_check (part_eq (Nat.zero_le _) (by rw [List.length_replicate]; omega)) ?_
    refine follows_step (ensures_readExactly file) fun chunk _ => ?_
    refine follows_check (add_eq (by omega)) ?_
    split
    · rename_i heq
      cases heq.symm.trans (sub_eq hle)
    · rename_i heq
      cases heq.symm.trans (sub_eq hle)
      exact ih (by omega) (by omega)

theorem follows_readLayout {name : String} {capacity : Nat} {ends : Ends}
    (behind : headerSize ≤ ends.dataEnd) (inside : ends.dataEnd + footerSize ≤ bytes.length) :
    Follows (readLayout name handle capacity bytes.length ends)
      (Table.readLayout name handle capacity bytes.length ends) host := by
  have hlimit := sound.length_le file
  unfold readLayout Table.readLayout
  refine follows_check (sub_eq behind) ?_
  refine follows_bind (follows_feedChunks file sound (Nat.le_refl _) (by omega))
    fun register _ => ?_
  by_cases hsum : (Checksum.finish register).toNat ≠ ends.checksum
  · rw [if_pos hsum, if_pos hsum]
    exact follows_throw_bind _
  rw [if_neg hsum, if_neg hsum]
  refine follows_check (sub_eq (by omega)) (follows_check (sub_eq (by omega)) ?_)
  refine follows_step (ensures_readExactly file) fun index hindex => ?_
  obtain ⟨_, _, hle⟩ := facts_of_slice? hindex
  refine follows_check (readIndex_eq (Nat.zero_le _) (Nat.le_trans hle hlimit)) ?_
  rw [List.drop_zero, Layout.ofIndex]
  cases Layout.indexEntries index with
  | none => exact follows_throw _
  | some offsets => exact follows_pure _

end File

theorem follows_start {host : Host} {path : Path} {place : Location} {id capacity : Nat}
    {bytes : Bytes} (sound : host.Sound) (stored : host.Stores path place id bytes) :
    Follows (start path capacity) (Table.start path capacity) host := by
  have file : host.view.file? place = some ((⟨id⟩ : Handle).id, bytes) := stored.file
  have hopens : (Action.openFile path .read).Ensures .own (fun _ => True)
      (fun handle after => handle = ⟨id⟩ ∧ after = host) (fun _ after => after = host) host :=
    Action.ensures_openFile_stored (Or.inl rfl) stored trivial (absurd Conduct.steady_own)
      ⟨rfl, rfl⟩
  have hmeasures : (Action.size ⟨id⟩).Ensures .own (fun _ => True)
      (fun size after => size = bytes.length ∧ after = host) (fun _ after => after = host) host :=
    Action.ensures_size file trivial ⟨rfl, rfl⟩
  unfold start Table.start
  refine follows_step hopens fun handle hhandle => ?_
  subst hhandle
  refine follows_step hmeasures fun size hsize => ?_
  subst hsize
  refine follows_check (add_eq (by decide)) ?_
  by_cases hsmall : bytes.length < headerSize + footerSize
  · rw [if_pos hsmall, if_pos hsmall]
    exact follows_throw_bind _
  rw [if_neg hsmall, if_neg hsmall]
  refine follows_step (ensures_readExactly file) fun header hheader => ?_
  refine follows_check (sub_eq (by omega)) ?_
  refine follows_step (ensures_readExactly file) fun footer hfooter => ?_
  refine follows_check (readEnds_eq path.text (facts_of_slice? hheader).2.1
    (facts_of_slice? hfooter).2.1 (by omega)) ?_
  cases hends : Ends.read path.text bytes.length header footer with
  | error fault => exact follows_throw _
  | ok ends =>
    obtain ⟨hbehind, hinside⟩ := Ends.bounds_of_read hends
    exact follows_bind (follows_readLayout file sound hbehind (by omega)) fun _ _ => follows_pure _

section Open

variable {host : Host} {table : Table} {place : Location} {bytes : Bytes} {offset : Nat}
  (file : host.view.file? place = some (table.handle.id, bytes))

include file

/-- The lengths of an entry fit 32 bits, and it does not begin behind where files end. -/
theorem ensures_readLengths :
    (table.readLengths offset).Ensures .own (fun _ => True)
      (fun lengths after => (offset ≤ Disk.sizeLimit ∧ lengths.1 < Bytes.fieldSize 4 ∧
        lengths.2 < Bytes.fieldSize 4) ∧ after = host)
      (fun _ after => after = host) host := by
  refine (ensures_readLengths_any file trivial).mono (fun _ h => h) ?_ fun _ _ h => h.1
  rintro lengths after ⟨hsame, found, hfound, rfl⟩
  obtain ⟨hoffset, hlength, _⟩ := facts_of_slice? hfound
  have hkey := Bytes.ofLittleEndian_lt (found.take 4)
  have hvalue := Bytes.ofLittleEndian_lt (found.drop 4)
  rw [List.length_take, hlength] at hkey
  rw [List.length_drop, hlength] at hvalue
  exact ⟨⟨hoffset, hkey, hvalue⟩, hsame⟩

theorem ensures_readValue {length : Nat} :
    (table.readValue offset length).Ensures .own (fun _ => True)
      (fun value? after => (∀ value, value? = some value → value.length = length) ∧ after = host)
      (fun _ after => after = host) host := by
  refine (ensures_readValue_any file trivial).mono (fun _ h => h) ?_ fun _ _ h => h.1
  rintro value? after ⟨hsame, hvalue⟩
  refine ⟨fun value hsome => ?_, hsame⟩
  subst hsome
  split at hvalue
  · cases hvalue
  · obtain ⟨found, hfound, heq⟩ := Option.map_eq_some_iff.1 hvalue
    cases heq
    exact (facts_of_slice? hfound).2.1

theorem follows_readLengths :
    Follows (readLengths table offset) (table.readLengths offset) host := by
  unfold readLengths Table.readLengths
  refine follows_step (ensures_readExactly file) fun lengths hlengths => ?_
  obtain ⟨_, hlength, _⟩ := facts_of_slice? hlengths
  have hlimit : 8 ≤ Disk.sizeLimit := by decide
  refine follows_check (field_eq (by omega) (by omega)) ?_
  refine follows_check (field_eq (by omega) (by omega)) ?_
  have hrest : (lengths.drop 4).take 4 = lengths.drop 4 :=
    List.take_of_length_le (by rw [List.length_drop]; omega)
  rw [List.drop_zero, hrest]
  exact follows_pure _

/-- The place of the value of an entry fits 64 bits. -/
theorem follows_get (key : Bytes) : Follows (get table key) (table.get key) host := by
  have hsize : Disk.sizeLimit + 8 + Bytes.fieldSize 4 < UInt64.size := by decide
  have hfind : Follows (find? table key) (table.find? key) host := by
    unfold find? Table.find?
    cases table.layout.offsets.find? key with
    | none => exact follows_pure _
    | some offset =>
      refine follows_bind (follows_readLengths file) fun lengths hlengths => ?_
      obtain ⟨hoffset, hkey, _⟩ := (facts_of_ensures (ensures_readLengths file)).1 _ hlengths
      refine follows_check (add_eq (by omega)) (follows_check (add_eq (by omega)) ?_)
      exact follows_step (ensures_readValue file) fun value? _ => follows_pure _
  unfold get Table.get
  refine follows_bind hfind fun found _ => ?_
  cases found with
  | none => exact follows_throw _
  | some value? => exact follows_pure _

theorem follows_readEntry (offset : Nat) :
    Follows (readEntry table offset) (table.readEntry offset) host := by
  have hsize : Disk.sizeLimit + 8 + Bytes.fieldSize 4 + Bytes.fieldSize 4 < UInt64.size := by
    decide
  unfold readEntry Table.readEntry
  refine follows_bind (follows_readLengths file) fun lengths hlengths => ?_
  obtain ⟨hoffset, hkey, hvalue⟩ := (facts_of_ensures (ensures_readLengths file)).1 _ hlengths
  refine follows_check (add_eq (by omega)) ?_
  refine follows_step (ensures_readExactly file) fun key _ => ?_
  refine follows_check (add_eq (by omega)) (follows_check (add_eq (by omega)) ?_)
  refine follows_step (ensures_readValue file) fun value? hvalue? => ?_
  cases value? with
  | none =>
    refine follows_check rfl (follows_check (add_eq (by omega)) ?_)
    simp only [Option.map_none, Option.getD_none, Nat.add_zero, ← Nat.add_assoc]
    exact follows_pure _
  | some value =>
    refine follows_check (add_eq (by omega)) (follows_check (add_eq (by omega)) ?_)
    simp only [Option.map_some, Option.getD_some, hvalue? value rfl, ← Nat.add_assoc]
    exact follows_pure _

/-- An entry takes up eight bytes at least. -/
theorem advances {entry : TableEntry} {later : Nat}
    (h : ((table.readEntry offset).perform host).1 = .ok (entry, later)) : offset + 8 ≤ later := by
  have hensures : (table.readEntry offset).Ensures .own (fun _ => True)
      (fun pair after => offset + 8 ≤ pair.2 ∧ after = host)
      (fun _ after => after = host) host := by
    unfold Table.readEntry
    refine Action.Ensures.bind_of (ensures_readLengths file) ?_ fun _ _ h => h
    rintro lengths _ ⟨_, rfl⟩
    refine Action.Ensures.bind_of (ensures_readExactly file) ?_ fun _ _ h => h
    rintro key _ ⟨_, rfl⟩
    refine Action.Ensures.bind_of (ensures_readValue file) ?_ fun _ _ h => h
    rintro value? _ ⟨_, rfl⟩
    refine Action.ensures_pure ⟨?_, rfl⟩
    simp only
    omega
  exact (facts_of_ensures hensures).1 (entry, later) h

/-! ## Walks -/

/-- What the next item of a walk is. -/
theorem run_next (offset : Nat) :
    (next table offset).run.run host =
      (.ok (if table.layout.dataEnd ≤ offset then none
        else match ((table.readEntry offset).perform host).1 with
          | .error e => some (.error e, table.layout.dataEnd)
          | .ok (entry, later) => some (.ok entry, later)), host) := by
  unfold next
  by_cases hend : table.layout.dataEnd ≤ offset
  · rw [if_pos hend, if_pos hend]
    rfl
  · rw [if_neg hend, if_neg hend]
    change Script.run ((readEntry table offset).run.run >>= ExceptT.bindCont _) host = _
    rw [Script.run_bind, (follows_readEntry file offset).1]
    cases ((table.readEntry offset).perform host).1 <;> rfl

end Open

/-- What the reader gives from an offset on, until there is none. -/
inductive Walks (table : Table) (host : Host) :
    (offset : Nat) → (items : List (Except Error TableEntry)) → Prop where
  | finished {offset : Nat} : table.layout.dataEnd ≤ offset → Walks table host offset []
  | failed {offset : Nat} {e : Error} : offset < table.layout.dataEnd →
      (table.readEntry offset).perform host = (.error e, host) →
      Walks table host offset [.error e]
  | passed {offset later : Nat} {entry : TableEntry} {items : List (Except Error TableEntry)} :
      offset < table.layout.dataEnd →
      (table.readEntry offset).perform host = (.ok (entry, later), host) → offset + 8 ≤ later →
      Walks table host later items → Walks table host offset (.ok entry :: items)

namespace Walks

variable {host : Host} {table : Table} {place : Location} {bytes : Bytes} {offset : Nat}
  {items : List (Except Error TableEntry)}

/-- Every walk ends. -/
theorem exists_items (file : host.view.file? place = some (table.handle.id, bytes))
    (offset : Nat) : ∃ items, Walks table host offset items := by
  -- Every entry leaves less of the data behind it.
  induction hleft : table.layout.dataEnd - offset using Nat.strongRecOn generalizing offset with
  | ind left ih =>
    by_cases hend : table.layout.dataEnd ≤ offset
    · exact ⟨[], .finished hend⟩
    have hinside : offset < table.layout.dataEnd := Nat.lt_of_not_le hend
    have hkept := (follows_readEntry file offset).2
    cases hread : ((table.readEntry offset).perform host).1 with
    | error e => exact ⟨_, .failed hinside (Prod.ext hread hkept)⟩
    | ok pair =>
      obtain ⟨entry, later⟩ := pair
      have hlater := advances file hread
      obtain ⟨items, hitems⟩ := ih (table.layout.dataEnd - later) (by omega) later rfl
      exact ⟨_, .passed hinside (Prod.ext hread hkept) hlater hitems⟩

/-- With a watch on offsets the same items are given. -/
theorem iterates (file : host.view.file? place = some (table.handle.id, bytes))
    (h : Walks table host offset items) : Iterates table host offset items := by
  have hend : (next table table.layout.dataEnd).run.run host = (.ok none, host) := by
    rw [run_next file, if_pos (Nat.le_refl _)]
  induction h with
  | finished hfinished =>
    refine .done ?_
    rw [run_next file, if_pos hfinished]
  | failed hinside hread =>
    refine .gave ?_ (.done hend)
    rw [run_next file, if_neg (Nat.not_le.2 hinside), hread]
  | passed hinside hread _ _ ih =>
    refine .gave ?_ ih
    rw [run_next file, if_neg (Nat.not_le.2 hinside), hread]

/-- There is one item for eight bytes of data at most. -/
theorem length_le (h : Walks table host offset items) :
    8 * items.length ≤ table.layout.dataEnd - offset + 7 := by
  induction h with
  | finished => simp
  | failed hinside _ =>
    simp only [List.length_cons, List.length_nil]
    omega
  | passed hinside _ hlater _ ih =>
    rw [List.length_cons]
    omega

/-- A failure is the last item. -/
theorem last_of_error (h : Walks table host offset items)
    {front back : List (Except Error TableEntry)} {e : Error}
    (hitems : items = front ++ .error e :: back) : back = [] := by
  induction h generalizing front with
  | finished => simp at hitems
  | failed =>
    cases front with
    | nil => exact (List.cons.inj hitems).2.symm
    | cons first front => simp at hitems
  | passed _ _ _ _ ih =>
    cases front with
    | nil => cases (List.cons.inj hitems).1
    | cons first front => exact ih (List.cons.inj hitems).2

theorem run_itemsBehind (h : Walks table host offset items)
    (read : List (Except Error TableEntry)) (limit : Nat) :
    (table.itemsBehind read limit offset).run host = (read.reverse ++ items.take limit, host) := by
  induction h generalizing read limit with
  | finished hfinished =>
    cases limit with
    | zero => simp [itemsBehind]
    | succ limit => simp [itemsBehind, hfinished]
  | failed hinside hread =>
    cases limit with
    | zero => simp [itemsBehind]
    | succ limit =>
      unfold Action.perform at hread
      rw [itemsBehind, if_neg (Nat.not_le.2 hinside), Script.run_bind, hread]
      simp
  | passed hinside hread _ _ ih =>
    cases limit with
    | zero => simp [itemsBehind]
    | succ limit =>
      unfold Action.perform at hread
      rw [itemsBehind, if_neg (Nat.not_le.2 hinside), Script.run_bind, hread]
      simp only
      rw [ih]
      simp

/-- A walk over all entries is not cut short. -/
theorem run_all (h : Walks table host headerSize items) :
    table.all.run host = (items, host) := by
  have hlength := h.length_le
  have hsome : headerSize = 14 := rfl
  rw [Table.all, Table.items, h.run_itemsBehind, List.reverse_nil, List.nil_append,
    List.take_of_length_le (by omega)]

/-- With a watch on offsets the same entries are collected. -/
theorem run_collect (file : host.view.file? place = some (table.handle.id, bytes))
    (h : Walks table host offset items) (limit : Nat) :
    (collect table limit offset).run.run.run host =
      (.ok (entriesOf (items.take limit)), host) := by
  induction h generalizing limit with
  | @finished offset hfinished =>
    cases limit with
    | zero => rfl
    | succ limit =>
      have hnext := run_next file offset
      rw [if_pos hfinished] at hnext
      rw [collect, run_lift_bind hnext]
      rfl
  | @failed offset e hinside hread =>
    cases limit with
    | zero => rfl
    | succ limit =>
      have hnext := run_next file offset
      rw [if_neg (Nat.not_le.2 hinside), hread] at hnext
      rw [collect, run_lift_bind hnext]
      rfl
  | @passed offset later entry items hinside hread _ _ ih =>
    cases limit with
    | zero => rfl
    | succ limit =>
      have hnext := run_next file offset
      rw [if_neg (Nat.not_le.2 hinside), hread] at hnext
      rw [collect, run_lift_bind hnext]
      change Script.run ((collect table limit later).run.run >>=
        ExceptT.bindCont (ExceptT.bindCont _)) host = _
      rw [Script.run_bind, ih limit, List.take_succ_cons]
      unfold entriesOf
      rw [List.mapM_cons]
      cases List.mapM id (items.take limit) <;> rfl

end Walks

/-- No more entries are collected than there are items. -/
theorem length_of_entriesOf {items : List (Except Error TableEntry)} {entries : List TableEntry}
    (h : entriesOf items = .ok entries) : entries.length = items.length := by
  unfold entriesOf at h
  induction items generalizing entries with
  | nil =>
    cases h
    rfl
  | cons item items ih =>
    rw [List.mapM_cons] at h
    obtain ⟨entry, _, h⟩ := bind_eq_ok_iff.1 h
    obtain ⟨rest, hrest, h⟩ := bind_eq_ok_iff.1 h
    cases h
    rw [List.length_cons, List.length_cons, ih hrest]

/-- What the reader collects of a walk. -/
theorem Walks.perform_items {host : Host} {table : Table} {offset : Nat}
    {items : List (Except Error TableEntry)} (walks : Walks table host offset items) (limit : Nat) :
    (do
      let items ← Action.ofScript (table.items limit offset)
      ExceptT.mk (pure (entriesOf items)) : Action (List TableEntry)).perform host =
        (entriesOf (items.take limit), host) := by
  unfold Action.perform
  change Script.run ((table.items limit offset >>= fun items => Script.done (Except.ok items)) >>=
    ExceptT.bindCont fun items => ExceptT.mk (pure (entriesOf items))) host = _
  rw [Script.run_bind, Script.run_bind, Table.items, walks.run_itemsBehind, List.reverse_nil,
    List.nil_append]
  rfl

/-- An offset is gone to, or refused. -/
theorem ensures_read_nothing (host : Host) (handle : Handle) (offset : Nat) :
    (Action.read handle offset 0).Ensures .own (fun _ => True)
      (fun _ after => True ∧ after = host) (fun _ after => after = host) host := by
  refine Action.ensures_attempt (Script.ensures_call_of_sure (fun h => h) trivial ⟨trivial, ?_⟩)
  generalize (host.answer (.read handle offset 0)).1 = reply
  cases reply with
  | ok _ => exact ⟨trivial, rfl⟩
  | error _ => rfl

section Scan

variable {host : Host} {table : Table} {place : Location} {bytes first : Bytes} {limit : Nat}
  (file : host.view.file? place = some (table.handle.id, bytes))

include file

/-- A scan collects what the reader collects. -/
theorem follows_scan (first : Bytes) (limit : Nat) :
    Follows (scan table first limit) (table.scan first limit) host := by
  unfold scan Table.scan
  cases (table.layout.offsets.entriesFrom first).head? with
  | none => exact follows_pure _
  | some pair =>
    obtain ⟨key, offset⟩ := pair
    refine follows_step (ensures_read_nothing host table.handle offset) fun _ _ => ?_
    obtain ⟨items, walks⟩ := Walks.exists_items file offset
    have hitems := walks.perform_items limit
    exact ⟨by rw [walks.run_collect file, hitems], by rw [hitems]⟩

/-- A scan gives no more entries than were asked for. -/
theorem length_of_scan {found : List TableEntry}
    (h : ((table.scan first limit).perform host).1 = .ok found) : found.length ≤ limit := by
  unfold Table.scan at h
  cases hhead : (table.layout.offsets.entriesFrom first).head? with
  | none =>
    rw [hhead] at h
    cases h
    exact Nat.zero_le _
  | some pair =>
    obtain ⟨key, offset⟩ := pair
    rw [hhead] at h
    obtain ⟨items, walks⟩ := Walks.exists_items file offset
    have hkept := (facts_of_ensures (ensures_read_nothing host table.handle offset)).2
    unfold Action.perform at h hkept
    change (Script.run ((Action.read table.handle offset 0).run >>= ExceptT.bindCont _) host).1 = _
      at h
    rw [Script.run_bind, hkept] at h
    generalize ((Action.read table.handle offset 0).run.run host).1 = reply at h
    cases reply with
    | error e => cases h
    | ok nothing =>
      have hentries := (congrArg Prod.fst (walks.perform_items limit)).symm.trans h
      rw [length_of_entriesOf hentries]
      exact List.length_take_le _ _

end Scan

end Guarded

namespace Table

/-- Whatever is read from a table, nothing goes wrong with an offset, and the host stays as it is:
values of keys, pages of entries, of which none has more than were asked for, and walks over all
entries, which end, and of which a failure is the last item. -/
structure ReadsSafely (table : Table) (host : Host) : Prop where
  get : ∀ key, Guarded.Follows (Guarded.get table key) (table.get key) host
  scan : ∀ first limit,
    Guarded.Follows (Guarded.scan table first limit) (table.scan first limit) host
  page : ∀ first limit found, ((table.scan first limit).perform host).1 = .ok found →
    found.length ≤ limit
  walk : ∃ items, Guarded.Iterates table host headerSize items ∧
    table.all.run host = (items, host) ∧
    8 * items.length ≤ table.layout.dataEnd - headerSize + 7 ∧
    ∀ front e back, items = front ++ .error e :: back → back = []

theorem readsSafely_of_file? {host : Host} {table : Table} {place : Location} {bytes : Bytes}
    (file : host.view.file? place = some (table.handle.id, bytes)) : table.ReadsSafely host where
  get := Guarded.follows_get file
  scan := Guarded.follows_scan file
  page _ _ _ := Guarded.length_of_scan file
  walk := by
    obtain ⟨items, walks⟩ := Guarded.Walks.exists_items file headerSize
    exact ⟨items, walks.iterates file, walks.run_all, walks.length_le,
      fun _ _ _ => walks.last_of_error⟩

/-- A file of any bytes can be read as a table without harm, through a buffer of any capacity: it is
opened or refused, and if it is opened, everything is read from it or refused. -/
theorem read_safely {host : Host} {path : Path} {bytes : Bytes} (sound : host.Sound)
    (stored : host.disk.content? path = some bytes) (capacity : Nat) :
    Guarded.Follows (Guarded.start path capacity) (Table.start path capacity) host ∧
      ∀ table, ((Table.start path capacity).perform host).1 = .ok table →
        table.ReadsSafely host := by
  obtain ⟨place, id, hstores⟩ := Host.content?_eq_some_iff.1 stored
  refine ⟨Guarded.follows_start sound hstores, fun table htable => ?_⟩
  rw [perform_start sound hstores] at htable
  split at htable
  · cases htable
    exact readsSafely_of_file? hstores.file
  · cases htable

/-- A table whose index leads as far behind the file as an offset can. It is opened, and a look-up
and a scan are refused. -/
theorem read_safely_astray :
    ∃ host bytes table, host = Host.holding "t" [("file", bytes)] ∧
      bytes = (image [([1], some [2])]).take 28 ++ List.replicate 8 255 ++
        (image [([1], some [2])]).drop 36 ∧
      (Table.start (.ofText "t/file") 3).perform host = (.ok table, host) ∧
      table.ReadsSafely host ∧ (∃ e, (table.get [1]).perform host = (.error e, host)) ∧
      ∃ e, (table.scan [] 5).perform host = (.error e, host) := by
  let bytes : Bytes := (image [([1], some [2])]).take 28 ++ List.replicate 8 255 ++
    (image [([1], some [2])]).drop 36
  let host := Host.holding "t" [("file", bytes)]
  have hsound : host.Sound := (Host.holds (by decide) (by decide +kernel)).1
  have hstored : host.disk.content? (.ofText "t/file") = some bytes := by decide +kernel
  have hruns : (match ((Table.start (.ofText "t/file") 3).perform host).1 with
      | .error _ => false
      | .ok table => !((table.get [1]).perform host).1.toOption.isSome &&
        !((table.scan [] 5).perform host).1.toOption.isSome) = true := by decide +kernel
  obtain ⟨⟨_, hkept⟩, hsafe⟩ := read_safely hsound hstored 3
  generalize hopened : (Table.start (.ofText "t/file") 3).perform host = outcome
    at hruns hkept hsafe
  obtain ⟨e | table, after⟩ := outcome
  · cases hruns
  obtain rfl : after = host := hkept
  have hreads := hsafe table rfl
  simp only [Bool.and_eq_true, Bool.not_eq_true'] at hruns
  obtain ⟨e, hget⟩ := Script.exists_of_failed hruns.1
  obtain ⟨e', hscan⟩ := Script.exists_of_failed hruns.2
  rw [(hreads.get [1]).2] at hget
  rw [(hreads.scan [] 5).2] at hscan
  exact ⟨_, bytes, table, rfl, rfl, hopened, hreads, ⟨e, hget⟩, e', hscan⟩

end Table

end OrderedStore
