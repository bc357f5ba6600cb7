import OrderedStore.Proofs.Table.Consulting

/-!
# Reading with a watch on offsets

The index of a table is not covered by the checksum, and offsets and lengths are taken from it as
they come. Here a table is read with a watch on what is done with them: sums have to fit 64 bits,
nothing is subtracted from less, and bytes are taken only from where they are. Loops go on for as
long as there is something to do. With bytes that were read nothing of this goes wrong.

Main definitions:

- `Breach`, `Guarded`: what may go wrong with an offset, and actions that end where it does.
- `Guarded.start`, `Guarded.get`, `Guarded.scan`, `Guarded.next`: reading with a watch.
- `Guarded.Iterates`: the items that are given until there is none.
- `Guarded.Follows`: nothing goes wrong, and what comes out is what comes out of an action.

Main statements: `Guarded.readEnds_eq`, `Guarded.readIndex_eq`.
-/

namespace OrderedStore

/-- What may go wrong with an offset. -/
inductive Breach where
  | overflow
  | underflow
  | outOfBounds

namespace Offset

/-- The sum of two numbers of 64 bits. -/
def add (a b : Nat) : Except Breach Nat :=
  if a + b < UInt64.size then .ok (a + b) else .error .overflow

def sub (a b : Nat) : Except Breach Nat :=
  if b ≤ a then .ok (a - b) else .error .underflow

/-- The bytes from one place to another. -/
def part (bytes : Bytes) (first last : Nat) : Except Breach Bytes :=
  if first ≤ last ∧ last ≤ bytes.length then .ok ((bytes.drop first).take (last - first))
  else .error .outOfBounds

/-- The number in a field of some bytes. -/
def field (bytes : Bytes) (first width : Nat) : Except Breach Nat := do
  let last ← add first width
  return Bytes.ofLittleEndian (← part bytes first last)

variable {a b first last width : Nat} {bytes : Bytes}

theorem add_eq (h : a + b < UInt64.size) : add a b = .ok (a + b) :=
  if_pos h

theorem sub_eq (h : b ≤ a) : sub a b = .ok (a - b) :=
  if_pos h

theorem part_eq (h : first ≤ last) (h' : last ≤ bytes.length) :
    part bytes first last = .ok ((bytes.drop first).take (last - first)) :=
  if_pos ⟨h, h'⟩

/-- No file is so large that a place behind its end would not fit 64 bits. -/
theorem field_eq (h : first + width ≤ bytes.length) (small : bytes.length ≤ Disk.sizeLimit) :
    field bytes first width = .ok (Bytes.ofLittleEndian ((bytes.drop first).take width)) := by
  have hsize : Disk.sizeLimit < UInt64.size := by decide
  simp only [field, add_eq (show first + width < UInt64.size by omega), bind, Except.bind,
    part_eq (Nat.le_add_right first width) h, Nat.add_sub_cancel_left]
  rfl

end Offset

/-- Scripts that end where something goes wrong with an offset. -/
abbrev Wary (α : Type) :=
  ExceptT Breach Script α

/-- Actions that end where something goes wrong with an offset. -/
abbrev Guarded (α : Type) :=
  ExceptT Error Wary α

namespace Guarded

open Offset Table

/-! ## Reading with a watch on offsets -/

def ofAction {α : Type} (action : Action α) : Guarded α :=
  ExceptT.mk (ExceptT.lift action.run)

def check {α : Type} (outcome : Except Breach α) : Guarded α :=
  ExceptT.lift (ExceptT.mk (Script.done outcome))

/-- Checks header and footer of a file. -/
def readEnds (file : String) (size : Nat) (header footer : Bytes) :
    Except Breach (Except StorageFault Ends) := do
  let name ← part header 0 4
  if name ≠ magic then return .error (.badMagic name)
  let found ← field header 4 2
  if found ≠ version then return .error (.unsupportedVersion found)
  let count ← field header countOffset 8
  let dataEnd ← field footer 0 8
  let checksum ← field footer 8 4
  if dataEnd < headerSize then return .error (.indexOutside file dataEnd)
  let behind ← sub size footerSize
  if behind < dataEnd then return .error (.indexOutside file dataEnd)
  return .ok { count, dataEnd, checksum }

/-- Takes bytes of a file into a checksum register for as long as some remain. -/
def feedChunks (handle : Handle) (capacity : Nat) (register : UInt32) (offset remaining : Nat) :
    Guarded UInt32 :=
  if _some : remaining = 0 then return register
  else do
    let size := min remaining (max capacity 1)
    let _ ← check (part (List.replicate (max capacity 1) 0) 0 size)
    let chunk ← ofAction (Action.readExactly handle offset size)
    let next ← check (add offset size)
    match _left : sub remaining size with
    | .error breach => check (.error breach)
    | .ok left => feedChunks handle capacity (Checksum.feed register chunk) next left
termination_by remaining
decreasing_by
  simp only [sub, size] at _left
  split at _left <;> simp only [Except.ok.injEq, reduceCtorEq] at _left
  omega

/-- What stands at a place of an index. -/
inductive Found where
  /-- Less than the front of an entry. -/
  | nothing
  /-- An entry whose key is cut off. -/
  | cut
  | entry (key : Bytes) (offset next : Nat)

def findAt (index : Bytes) (place : Nat) : Except Breach Found := do
  let front ← add place 12
  if index.length < front then return .nothing
  let keyLength ← field index place 4
  let offset ← field index (← add place 4) 8
  let next ← add front keyLength
  if index.length < next then return .cut
  return .entry (← part index front next) offset next

/-- An entry takes up some of the index. -/
theorem next_of_findAt {index key : Bytes} {place offset next : Nat}
    (h : findAt index place = .ok (.entry key offset next)) :
    place < next ∧ next ≤ index.length := by
  unfold findAt at h
  obtain ⟨front, hfront, h⟩ := bind_eq_ok_iff.1 h
  unfold add at hfront
  split at hfront
  · cases hfront
    split at h
    · cases h
    · obtain ⟨keyLength, _, h⟩ := bind_eq_ok_iff.1 h
      obtain ⟨_, _, h⟩ := bind_eq_ok_iff.1 h
      obtain ⟨_, _, h⟩ := bind_eq_ok_iff.1 h
      obtain ⟨last, hlast, h⟩ := bind_eq_ok_iff.1 h
      unfold add at hlast
      split at hlast
      · cases hlast
        split at h
        · cases h
        · obtain ⟨_, _, h⟩ := bind_eq_ok_iff.1 h
          cases h
          omega
      · cases hlast
  · cases hfront

/-- Reads an index for as long as there are entries; `none` if a key is cut off. -/
def readIndex (index : Bytes) (place : Nat) (offsets : KeyMap Nat) :
    Except Breach (Option (KeyMap Nat)) :=
  match _found : findAt index place with
  | .error breach => .error breach
  | .ok .nothing => .ok (some offsets)
  | .ok .cut => .ok none
  | .ok (.entry key offset next) => readIndex index next (offsets.insert key offset)
termination_by index.length - place
decreasing_by
  have := next_of_findAt _found
  omega

/-- Checks the data of a table file and reads its index. -/
def readLayout (file : String) (handle : Handle) (capacity size : Nat) (ends : Ends) :
    Guarded Layout := do
  let dataSize ← check (sub ends.dataEnd headerSize)
  let register ← feedChunks handle capacity Checksum.start headerSize dataSize
  if (Checksum.finish register).toNat ≠ ends.checksum then throw (.storage (.dataChecksum file))
  let behind ← check (sub size footerSize)
  let indexSize ← check (sub behind ends.dataEnd)
  let index ← ofAction (Action.readExactly handle ends.dataEnd indexSize)
  match ← check (readIndex index 0 .empty) with
  | none => throw (.storage (.truncatedIndex file))
  | some offsets => return { count := ends.count, dataEnd := ends.dataEnd, offsets }

/-- Opens and checks a table file. -/
def start (path : Path) (capacity : Nat) : Guarded Table := do
  let handle ← ofAction (Action.openFile path .read)
  let size ← ofAction (Action.size handle)
  let least ← check (add headerSize footerSize)
  if size < least then throw (.storage (.tooSmall path.text size))
  let header ← ofAction (Action.readExactly handle 0 headerSize)
  let place ← check (sub size footerSize)
  let footer ← ofAction (Action.readExactly handle place footerSize)
  match ← check (readEnds path.text size header footer) with
  | .error fault => throw (.storage fault)
  | .ok ends =>
    let layout ← readLayout path.text handle capacity size ends
    return { path, handle, layout }

/-- The lengths of key and value of the entry at an offset. -/
def readLengths (table : Table) (offset : Nat) : Guarded (Nat × Nat) := do
  let lengths ← ofAction (Action.readExactly table.handle offset 8)
  let keyLength ← check (field lengths 0 4)
  let valueLength ← check (field lengths 4 4)
  return (keyLength, valueLength)

/-- What the table says about a key. -/
def find? (table : Table) (key : Bytes) : Guarded (Option (Option Bytes)) := do
  match table.layout.offsets.find? key with
  | none => return none
  | some offset =>
    let lengths ← readLengths table offset
    let behind ← check (add offset 8)
    let place ← check (add behind lengths.1)
    return some (← ofAction (table.readValue place lengths.2))

/-- The value of a key. -/
def get (table : Table) (key : Bytes) : Guarded (Option Bytes) := do
  match ← find? table key with
  | none => throw .keyNotFound
  | some value? => return value?

/-- The entry at an offset and where it ends. -/
def readEntry (table : Table) (offset : Nat) : Guarded (TableEntry × Nat) := do
  let lengths ← readLengths table offset
  let behind ← check (add offset 8)
  let key ← ofAction (Action.readExactly table.handle behind lengths.1)
  let size ← check (add 8 lengths.1)
  let place ← check (add behind lengths.1)
  let value? ← ofAction (table.readValue place lengths.2)
  let size ← check (match value? with
    | none => .ok size
    | some _ => add size lengths.2)
  let next ← check (add offset size)
  return ((key, value?), next)

/-- The next item of a walk that stands at an offset, and where it stands then. A failure ends
it. -/
def next (table : Table) (offset : Nat) : Wary (Option (Except Error TableEntry × Nat)) := do
  if table.layout.dataEnd ≤ offset then return none
  else
    match ← (readEntry table offset).run with
    | .error e => return some (.error e, table.layout.dataEnd)
    | .ok (entry, next) => return some (.ok entry, next)

/-- The entries among the first items of a walk; the first failure is that of all. -/
def collect (table : Table) : (limit offset : Nat) → Guarded (List TableEntry)
  | 0, _ => return []
  | limit + 1, offset => do
    match ← ExceptT.lift (next table offset) with
    | none => return []
    | some (.error e, _) => throw e
    | some (.ok entry, later) => return entry :: (← collect table limit later)

/-- Up to `limit` entries whose key is at least `first`. -/
def scan (table : Table) (first : Bytes) (limit : Nat) : Guarded (List TableEntry) := do
  match (table.layout.offsets.entriesFrom first).head? with
  | none => return []
  | some (_, offset) =>
    let _ ← ofAction (Action.read table.handle offset 0)
    collect table limit offset

/-- The items of a walk that stands at an offset, until there is none. -/
inductive Iterates (table : Table) (host : Host) :
    (offset : Nat) → (items : List (Except Error TableEntry)) → Prop where
  | done {offset : Nat} :
      (next table offset).run.run host = (.ok none, host) → Iterates table host offset []
  | gave {offset later : Nat} {item : Except Error TableEntry}
      {items : List (Except Error TableEntry)} :
      (next table offset).run.run host = (.ok (some (item, later)), host) →
      Iterates table host later items → Iterates table host offset (item :: items)

/-! ## Nothing goes wrong with bytes -/

section Bytes

variable {index header footer : Bytes} {place size : Nat} {offsets : KeyMap Nat}

theorem readEnds_eq (file : String) (hheader : header.length = headerSize)
    (hfooter : footer.length = footerSize) (big : footerSize ≤ size) :
    readEnds file size header footer = .ok (Ends.read file size header footer) := by
  have hlimit : 16 ≤ Disk.sizeLimit := by decide
  have hname : part header 0 4 = .ok (header.take 4) := part_eq (Nat.zero_le _) (by
    rw [hheader]
    decide)
  have hfield : ∀ first width, first + width ≤ headerSize → field header first width =
      .ok (Bytes.ofLittleEndian ((header.drop first).take width)) := fun first width h =>
    field_eq (by rw [hheader]; exact h) (by rw [hheader]; exact Nat.le_trans (by decide) hlimit)
  have hfield' : ∀ first width, first + width ≤ footerSize → field footer first width =
      .ok (Bytes.ofLittleEndian ((footer.drop first).take width)) := fun first width h =>
    field_eq (by rw [hfooter]; exact h) (by rw [hfooter]; exact hlimit)
  simp only [readEnds, Ends.read, hname, hfield 4 2 (by decide), hfield countOffset 8 (by decide),
    hfield' 0 8 (by decide), hfield' 8 4 (by decide), sub_eq big, bind, Except.bind, pure,
    Except.pure, List.drop_zero]
  split
  · rfl
  split
  · rfl
  split
  · rename_i hfront
    rw [if_pos (Or.inl hfront)]
  · rename_i hfront
    split
    · rename_i hbehind
      rw [if_pos (Or.inr hbehind)]
    · rename_i hbehind
      rw [if_neg (not_or.2 ⟨hfront, hbehind⟩)]

/-- What is found at a place of an index is what its bytes from there on begin with. -/
theorem findAt_eq (inside : place ≤ index.length) (small : index.length ≤ Disk.sizeLimit) :
    findAt index place = .ok (
      if ((index.drop place).take 12).length < 12 then .nothing
      else
        let keyLength := Bytes.ofLittleEndian ((index.drop place).take 4)
        let key := ((index.drop place).drop 12).take keyLength
        if key.length < keyLength then .cut
        else .entry key (Bytes.ofLittleEndian (((index.drop place).drop 4).take 8))
          (place + 12 + keyLength)) := by
  have hsize : Disk.sizeLimit + 12 + Bytes.fieldSize 4 < UInt64.size := by decide
  have hfront : add place 12 = .ok (place + 12) := add_eq (by omega)
  simp only [findAt, hfront, bind, Except.bind, pure, Except.pure]
  by_cases hshort : index.length < place + 12
  · rw [if_pos hshort, if_pos (by rw [List.length_take, List.length_drop]; omega)]
  rw [if_neg hshort, if_neg (by rw [List.length_take, List.length_drop]; omega)]
  have hlength : Bytes.ofLittleEndian ((index.drop place).take 4) < Bytes.fieldSize 4 := by
    have h := Bytes.ofLittleEndian_lt ((index.drop place).take 4)
    rwa [List.length_take, List.length_drop, Nat.min_eq_left (by omega)] at h
  have hkey : field index place 4 = .ok (Bytes.ofLittleEndian ((index.drop place).take 4)) :=
    field_eq (by omega) small
  have hmiddle : add place 4 = .ok (place + 4) := add_eq (by omega)
  have hoffset : field index (place + 4) 8 =
      .ok (Bytes.ofLittleEndian (((index.drop place).drop 4).take 8)) := by
    rw [List.drop_drop]
    exact field_eq (by omega) small
  simp only [hkey, hmiddle, hoffset]
  generalize Bytes.ofLittleEndian ((index.drop place).take 4) = keyLength at hlength ⊢
  have hnext : add (place + 12) keyLength = .ok (place + 12 + keyLength) := add_eq (by omega)
  simp only [hnext, List.drop_drop, List.length_take, List.length_drop]
  by_cases hcut : index.length < place + 12 + keyLength
  · rw [if_pos hcut, if_pos (by omega)]
  · rw [if_neg hcut, if_neg (by omega), part_eq (Nat.le_add_right ..) (by omega),
      Nat.add_sub_cancel_left]

/-- An index is read as its bytes are. -/
theorem readIndex_eq (inside : place ≤ index.length) (small : index.length ≤ Disk.sizeLimit) :
    readIndex index place offsets =
      .ok ((Layout.indexEntries (index.drop place)).map offsets.insertAll) := by
  -- Every entry leaves less of the index behind it.
  induction hleft : index.length - place using Nat.strongRecOn generalizing place offsets with
  | ind left ih =>
    have hfound := findAt_eq inside small
    rw [Layout.indexEntries, readIndex]
    by_cases hshort : ((index.drop place).take 12).length < 12
    · rw [if_pos hshort] at hfound
      rw [dif_pos hshort]
      split <;> rename_i h <;> cases h.symm.trans hfound
      rfl
    simp only [if_neg hshort] at hfound
    simp only [dif_neg hshort]
    split at hfound
    · rename_i hcut
      rw [if_pos hcut]
      split <;> rename_i h <;> cases h.symm.trans hfound
      rfl
    · rename_i hwhole
      rw [if_neg hwhole]
      split <;> rename_i h <;> cases h.symm.trans hfound
      obtain ⟨hlt, hle⟩ := next_of_findAt hfound
      rw [ih _ (by omega) hle rfl]
      simp only [List.drop_drop, Option.map_map]
      rfl

end Bytes

/-! ## Wary runs -/

section Runs

variable {α β : Type} {host : Host} {action : Action α} {f : α → Guarded β} {g : α → Action β}
  {guarded : Guarded α} {ok : α → Prop}

/-- On a host, which is left as it is, nothing goes wrong, and what comes out is what comes out of
an action. -/
def Follows (guarded : Guarded α) (action : Action α) (host : Host) : Prop :=
  guarded.run.run.run host = (.ok (action.perform host).1, host) ∧ (action.perform host).2 = host

theorem follows_pure (value : α) : Follows (pure value) (pure value) host :=
  ⟨rfl, rfl⟩

theorem follows_throw (e : Error) : Follows (throw e) (throw e : Action α) host :=
  ⟨rfl, rfl⟩

theorem follows_throw_bind (e : Error) :
    Follows (throw e >>= f) (throw e >>= g : Action β) host :=
  ⟨rfl, rfl⟩

theorem follows_bind (h : Follows guarded action host)
    (rest : ∀ value, (action.perform host).1 = .ok value → Follows (f value) (g value) host) :
    Follows (guarded >>= f) (action >>= g) host := by
  obtain ⟨hrun, hkept⟩ := h
  have hguarded : (guarded >>= f).run.run = guarded.run.run >>=
      ExceptT.bindCont (ExceptT.bindCont f) := rfl
  have haction : (action >>= g).run = action.run >>= ExceptT.bindCont g := rfl
  unfold Action.perform at hrun hkept rest
  unfold Follows Action.perform
  rw [hguarded, haction, Script.run_bind, Script.run_bind, hrun, hkept]
  generalize (action.run.run host).1 = result at rest
  cases result with
  | ok value => exact rest value rfl
  | error e => exact ⟨rfl, rfl⟩

/-- What is known of the value of an action that leaves the host as it is. -/
theorem facts_of_ensures (ensures : action.Ensures .own (fun _ => True)
      (fun value after => ok value ∧ after = host) (fun _ after => after = host) host) :
    (∀ value, (action.perform host).1 = .ok value → ok value) ∧ (action.perform host).2 = host := by
  have hensures := Script.Ensures.run ensures
  unfold Action.perform
  generalize action.run.run host = result at hensures
  obtain ⟨result, after⟩ := result
  cases result with
  | ok value =>
    obtain ⟨hvalue, hsame⟩ := hensures
    refine ⟨fun found heq => ?_, hsame⟩
    cases heq
    exact hvalue
  | error e =>
    refine ⟨fun found heq => ?_, hensures⟩
    cases heq

theorem follows_ofAction (ensures : action.Ensures .own (fun _ => True)
      (fun value after => ok value ∧ after = host) (fun _ after => after = host) host) :
    Follows (ofAction action) action host := by
  have hkept := (facts_of_ensures ensures).2
  refine ⟨?_, hkept⟩
  change Script.run (action.run >>= fun result => .done (Except.ok result)) host = _
  rw [Script.run_bind]
  exact congrArg _ hkept

/-- Something is done as it stands, and what is known of it is used. -/
theorem follows_step (ensures : action.Ensures .own (fun _ => True)
      (fun value after => ok value ∧ after = host) (fun _ after => after = host) host)
    (rest : ∀ value, ok value → Follows (f value) (g value) host) :
    Follows (ofAction action >>= f) (action >>= g) host :=
  follows_bind (follows_ofAction ensures) fun value hvalue =>
    rest value ((facts_of_ensures ensures).1 value hvalue)

theorem run_lift_bind {wary : Wary α} {value : α}
    (h : wary.run.run host = (.ok value, host)) :
    (ExceptT.lift wary >>= f).run.run.run host = (f value).run.run.run host := by
  change Script.run ((wary.run >>= _) >>= ExceptT.bindCont (ExceptT.bindCont f)) host = _
  rw [Script.run_bind, Script.run_bind, h]
  rfl

theorem follows_check {outcome : Except Breach α} {value : α} {action : Action β}
    (h : outcome = .ok value) (rest : Follows (f value) action host) :
    Follows (check outcome >>= f) action host := by
  rw [h]
  exact rest

end Runs

end Guarded

end OrderedStore
