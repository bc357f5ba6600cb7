import OrderedStore.Proofs.Host.Calls
import OrderedStore.Proofs.Table.Image
import OrderedStore.Proofs.Table.Parts

/-!
# Writing a table file

What was put out stands in the file or waits in the buffer. A draft whose entries were added in
order is finished as their image. Wherever it ends, only the file of the draft is touched.

Main definitions:

- `Table.Acceptable`: an entry may be added behind others.
- `Table.Summary.Describes`: what is said about a finished table is true of its entries.

Main statements: `Draft.ensures_start`, `Draft.ensures_addAll`, `Draft.ensures_finish`.
-/

namespace OrderedStore

variable {conduct : Conduct} {v : View} {target : Location} {handle : Handle} {size : Nat}
  {bytes front : Bytes} {host : Host}

/-- A sound host that differs from a view in the file at one place at most. -/
structure Host.Touched (host : Host) (v : View) (target : Location) : Prop where
  sound : host.Sound
  same : v.SameBut host.view target

/-- A host as in a view, but with a file that is being written and has at least `size` bytes. -/
structure Host.Writing (host : Host) (v : View) (target : Location) (handle : Handle)
    (size : Nat) : Prop extends Host.Touched host v target where
  file : ∃ bytes, size ≤ bytes.length ∧ host.view.file? target = some (handle.id, bytes)

theorem Host.Writing.mono (writing : host.Writing v target handle size) {smaller : Nat}
    (h : smaller ≤ size) : host.Writing v target handle smaller := by
  obtain ⟨bytes, hsize, hfile⟩ := writing.file
  exact ⟨writing.toTouched, bytes, Nat.le_trans h hsize, hfile⟩

theorem ensures_touched {α : Type} {action : Action α} {ok : α → Host → Prop}
    (h : action.Ensures conduct (fun after => after.Writing v target handle size) ok
      (fun _ after => conduct.Excuse ∧ after.Writing v target handle size) host) :
    action.Ensures conduct (fun after => after.Touched v target) ok
      (fun _ after => conduct.Excuse ∧ after.Touched v target) host :=
  h.mono (fun _ writing => writing.toTouched) (fun _ _ h => h)
    fun _ _ failed => ⟨failed.1, failed.2.toTouched⟩

/-! ## Buffered output -/

namespace Output

variable {out : Output}

/-- The file of an output holds what was written, and all else is as in a view. -/
structure Stands (out : Output) (v : View) (target : Location) (front : Bytes) (host : Host) :
    Prop where
  sound : host.Sound
  same : v.SameBut host.view target
  file : host.view.file? target = some (out.handle.id, front)
  written : front.length = out.written

/-- What was put out so far: first what stands in the file, then what waits. -/
def Holds (out : Output) (v : View) (target : Location) (bytes : Bytes) (host : Host) : Prop :=
  ∃ front, out.Stands v target front host ∧ bytes = front ++ out.pending.toList

/-- A later state of an output. -/
structure Follows (out later : Output) : Prop where
  handle : later.handle = out.handle
  written : out.written ≤ later.written

theorem Follows.refl (out : Output) : out.Follows out :=
  ⟨rfl, Nat.le_refl _⟩

theorem Follows.trans {later last : Output} (h : out.Follows later) (h' : later.Follows last) :
    out.Follows last :=
  ⟨h'.handle.trans h.handle, Nat.le_trans h.written h'.written⟩

theorem Stands.writing (stands : out.Stands v target front host) :
    host.Writing v target out.handle out.written :=
  ⟨⟨stands.sound, stands.same⟩, front, Nat.le_of_eq stands.written.symm, stands.file⟩

theorem Holds.writing (holds : out.Holds v target bytes host) :
    host.Writing v target out.handle out.written := by
  obtain ⟨front, stands, _⟩ := holds
  exact stands.writing

theorem Follows.writing {later : Output} (h : out.Follows later)
    (writing : host.Writing v target later.handle later.written) :
    host.Writing v target out.handle out.written := by
  rw [h.handle] at writing
  exact writing.mono h.written

theorem ensures_writeThrough (stands : out.Stands v target front host) (data : Bytes) :
    (out.writeThrough data).Ensures conduct
      (fun after => after.Writing v target out.handle out.written)
      (fun later after => later = { out with written := out.written + data.length } ∧
        later.Stands v target (front ++ data) after)
      (fun _ after => conduct.Excuse ∧ after.Writing v target out.handle out.written) host := by
  unfold writeThrough
  cases data with
  | nil => exact Action.ensures_pure ⟨rfl, by simpa using stands⟩
  | cons byte data =>
    -- The output stands at the end of the file, so writing there is appending.
    have hwrite : ∀ count (after : Host), after.view = host.view.put target
        (some (out.handle.id, front.overwrite out.written ((byte :: data).take count))) →
        after.view = host.view.put target
          (some (out.handle.id, front ++ (byte :: data).take count)) := by
      intro count after hview
      rwa [← stands.written, Bytes.overwrite_length] at hview
    refine Action.Ensures.bind (Action.ensures_write stands.file stands.sound
      (Nat.le_of_eq stands.written.symm) stands.writing
      (fun excuse _ => ⟨excuse, stands.writing⟩) ?_ ?_)
    · intro count after hsound hview
      have hview := hwrite count after hview
      refine ⟨⟨hsound, stands.same.trans (.of_eq_put hview)⟩, _, ?_, View.file?_of_eq_put hview⟩
      rw [List.length_append, stands.written]
      exact Nat.le_add_right _ _
    · intro after hsound hview
      rw [← List.take_length (l := byte :: data)] at hview
      have hview := hwrite _ after hview
      rw [List.take_length] at hview
      refine ⟨rfl, hsound, stands.same.trans (.of_eq_put hview), View.file?_of_eq_put hview, ?_⟩
      rw [List.length_append, stands.written]

theorem ensures_flush (holds : out.Holds v target bytes host) :
    out.flush.Ensures conduct (fun after => after.Writing v target out.handle out.written)
      (fun later after => out.Follows later ∧ later.pending = #[] ∧
        later.Stands v target bytes after)
      (fun _ after => conduct.Excuse ∧ after.Writing v target out.handle out.written) host := by
  obtain ⟨front, stands, rfl⟩ := holds
  refine Action.Ensures.bind_of (ensures_writeThrough stands _) ?_ fun _ _ h => h
  rintro later after ⟨rfl, hstands⟩
  refine Action.ensures_pure ⟨⟨rfl, Nat.le_add_right _ _⟩, rfl, ?_⟩
  exact ⟨hstands.sound, hstands.same, hstands.file, hstands.written⟩

/-- A piece is put out behind a buffer with room for it. -/
theorem ensures_put_roomy (holds : out.Holds v target bytes host) {piece : Bytes}
    (room : out.capacity ≤ piece.length → piece = [] ∨ out.pending = #[]) :
    (if out.capacity ≤ piece.length then out.writeThrough piece
      else return { out with pending := out.pending ++ piece } : Action Output).Ensures conduct
      (fun after => after.Writing v target out.handle out.written)
      (fun later after => out.Follows later ∧ later.Holds v target (bytes ++ piece) after)
      (fun _ after => conduct.Excuse ∧ after.Writing v target out.handle out.written) host := by
  obtain ⟨front, stands, rfl⟩ := holds
  split
  · rename_i hlarge
    refine (ensures_writeThrough stands piece).mono (fun _ => id) ?_ fun _ _ => id
    rintro later after ⟨rfl, hstands⟩
    refine ⟨⟨rfl, Nat.le_add_right _ _⟩, front ++ piece, hstands, ?_⟩
    rcases room hlarge with rfl | hempty
    · simp
    · simp [hempty]
  · refine Action.ensures_pure ⟨⟨rfl, Nat.le_refl _⟩, front, ?_, by simp⟩
    exact ⟨stands.sound, stands.same, stands.file, stands.written⟩

theorem ensures_put (holds : out.Holds v target bytes host) (piece : Bytes) :
    (out.put piece).Ensures conduct (fun after => after.Writing v target out.handle out.written)
      (fun later after => out.Follows later ∧ later.Holds v target (bytes ++ piece) after)
      (fun _ after => conduct.Excuse ∧ after.Writing v target out.handle out.written) host := by
  unfold put
  simp only
  split
  · -- The buffer is emptied first if the piece has no room in it.
    refine Action.Ensures.bind_of (ensures_flush holds) ?_ fun _ _ h => h
    rintro emptied after ⟨hfollows, hempty, hstands⟩
    have hholds : emptied.Holds v target bytes after := ⟨bytes, hstands, by simp [hempty]⟩
    refine (ensures_put_roomy hholds fun _ => Or.inr hempty).mono ?_ ?_ ?_
    · intro stopped hwriting
      exact hfollows.writing hwriting
    · rintro later last ⟨hlater, hlast⟩
      exact ⟨hfollows.trans hlater, hlast⟩
    · rintro e last ⟨excuse, hwriting⟩
      exact ⟨excuse, hfollows.writing hwriting⟩
  · rename_i hspare
    refine Action.Ensures.bind (Action.ensures_pure (ensures_put_roomy holds fun hlarge => ?_))
    cases piece with
    | nil => exact Or.inl rfl
    | cons byte piece =>
      have hempty : out.pending.size = 0 := by
        simp only [List.length_cons] at hspare hlarge
        omega
      exact Or.inr (Array.eq_empty_of_size_eq_zero hempty)

theorem ensures_putAll (holds : out.Holds v target bytes host) (pieces : List Bytes) :
    (out.putAll pieces).Ensures conduct
      (fun after => after.Writing v target out.handle out.written)
      (fun later after => out.Follows later ∧
        later.Holds v target (bytes ++ pieces.flatten) after)
      (fun _ after => conduct.Excuse ∧ after.Writing v target out.handle out.written) host := by
  induction pieces generalizing out bytes host with
  | nil => exact Action.ensures_pure ⟨.refl out, by simpa using holds⟩
  | cons piece rest ih =>
    unfold putAll
    refine Action.Ensures.bind_of (ensures_put holds piece) ?_ fun _ _ h => h
    rintro next after ⟨hfollows, hnext⟩
    refine (ih hnext).mono ?_ ?_ ?_
    · intro stopped hwriting
      exact hfollows.writing hwriting
    · rintro later last ⟨hlater, hlast⟩
      rw [List.append_assoc, ← List.flatten_cons] at hlast
      exact ⟨hfollows.trans hlater, hlast⟩
    · rintro e last ⟨excuse, hwriting⟩
      exact ⟨excuse, hfollows.writing hwriting⟩

end Output

/-! ## Drafts -/

namespace Table

variable {entry : TableEntry} {entries rest : List TableEntry}

/-- An entry may be added behind others if its key is larger than the last of theirs, and the length
of its value is below the mark of a tombstone. -/
def Acceptable (entries : List TableEntry) (entry : TableEntry) : Prop :=
  (∀ last ∈ entries.getLast?, last.1 < entry.1) ∧ ∀ value ∈ entry.2, value.length < 0xFFFFFFFF

instance (entries : List TableEntry) (entry : TableEntry) : Decidable (Acceptable entries entry) :=
  inferInstanceAs (Decidable (_ ∧ _))

theorem WellFormed.acceptable (h : WellFormed (entries ++ [entry])) : Acceptable entries entry where
  left last hlast :=
    (List.pairwise_append.1 h.ascending).2.2 last (List.mem_of_getLast? hlast) entry (by simp)
  right value hvalue := h.value entry (by simp) value hvalue

theorem Acceptable.wellFormed (acceptable : Acceptable entries entry) (h : WellFormed entries)
    (key : entry.1.length < Bytes.fieldSize 4) : WellFormed (entries ++ [entry]) where
  ascending := by
    refine List.pairwise_append.2 ⟨h.ascending, List.pairwise_singleton _ _, ?_⟩
    intro earlier hearlier other hother
    obtain rfl := List.mem_singleton.1 hother
    -- Only the last key is compared with the new one; the others lie below it.
    obtain ⟨front, last, rfl⟩ := (List.eq_nil_or_concat' entries).resolve_left
      (List.ne_nil_of_mem hearlier)
    have hlast : last.1 < other.1 := acceptable.1 last (by simp)
    rcases List.mem_append.1 hearlier with hfront | hlast'
    · have hlt := (List.pairwise_append.1 h.ascending).2.2 earlier hfront last (by simp)
      exact List.lt_trans hlt hlast
    · rwa [List.mem_singleton.1 hlast']
  key other hother := by
    rcases List.mem_append.1 hother with hold | hnew
    · exact h.key other hold
    · rwa [List.mem_singleton.1 hnew]
  value other hother := by
    rcases List.mem_append.1 hother with hold | hnew
    · exact h.value other hold
    · rw [List.mem_singleton.1 hnew]
      exact acceptable.2

/-- What is said about a finished table is true of its entries. -/
structure Summary.Describes (summary : Summary) (entries : List TableEntry) : Prop where
  count : summary.count = entries.length
  fileSize : summary.fileSize = (image entries).length
  minKey : ∀ first ∈ entries.head?, summary.minKey = first.1
  maxKey : ∀ last ∈ entries.getLast?, summary.maxKey = last.1

/-- The header gets the number of entries when they are known. -/
theorem overwrite_count (count : Nat) (more : Bytes) :
    (headerOf 0 ++ more).overwrite countOffset (Bytes.littleEndian 8 count) =
      headerOf count ++ more := by
  have hfront : ∀ count, headerOf count =
      (magic ++ Bytes.littleEndian 2 version) ++ Bytes.littleEndian 8 count := by
    intro count
    simp [headerOf, headerPieces]
  have htake : (headerOf 0 ++ more).take countOffset = magic ++ Bytes.littleEndian 2 version := by
    rw [hfront, List.append_assoc]
    exact List.take_left' (by simp [magic, countOffset])
  have hdrop : (headerOf 0 ++ more).drop (countOffset + (Bytes.littleEndian 8 count).length) =
      more := List.drop_left' (by simp [length_headerOf, countOffset, headerSize])
  rw [Bytes.overwrite, htake, hdrop, ← hfront]

namespace Draft

variable {draft : Draft}

/-- A draft to which entries were added in order. -/
structure Holds (draft : Draft) (v : View) (target : Location) (entries : List TableEntry)
    (host : Host) : Prop where
  out : draft.out.Holds v target (headerOf 0 ++ dataBytes entries) host
  offset : draft.offset = dataEndOf entries
  offsets : draft.offsets = (offsetsFrom headerSize entries).reverse
  register : draft.register = Checksum.feed Checksum.start (dataBytes entries)

theorem ensures_start {path : Path} {capacity : Nat} (sound : host.Sound)
    (names : host.view.Names path target) (clear : host.view.directory target = false) :
    (Draft.start path capacity).Ensures conduct (fun after => after.Touched host.view target)
      (fun draft after => draft.Holds host.view target [] after)
      (fun _ after => conduct.Excuse ∧ after.Touched host.view target) host := by
  have hsame : host.Touched host.view target := ⟨sound, .refl _ _⟩
  unfold Draft.start
  refine Action.Ensures.bind (Action.ensures_openFile_replace sound names clear hsame
    (fun excuse _ => ⟨excuse, hsame⟩) ?_)
  intro number after _ hsound hview
  have htouched : after.Touched host.view target := ⟨hsound, hsound.sameBut hview⟩
  refine ⟨htouched, ?_⟩
  have hholds : Output.Holds { handle := ⟨number⟩, capacity } host.view target [] after := by
    refine ⟨[], ⟨hsound, htouched.same, ?_, rfl⟩, rfl⟩
    rw [hview]
    exact View.put_file?_self ..
  simp only
  refine Action.Ensures.bind_of (ensures_touched (Output.ensures_putAll hholds _)) ?_
    fun _ _ h => h
  rintro out last ⟨_, hout⟩
  exact Action.ensures_pure ⟨by simpa [dataBytes, headerOf] using hout, rfl, rfl, rfl⟩

theorem lastKey?_eq (holds : draft.Holds v target entries host) :
    draft.lastKey? = entries.getLast?.map (·.1) := by
  rw [lastKey?, holds.offsets, List.head?_reverse, ← List.getLast?_map, map_fst_offsetsFrom,
    List.getLast?_map]

/-- A draft refuses just the entries that may not be added. -/
theorem refusal?_eq_none_iff (holds : draft.Holds v target entries host) :
    draft.refusal? entry.1 entry.2 = none ↔ Acceptable entries entry := by
  have horder : (draft.lastKey?.any (entry.1 ≤ ·)) = false ↔
      ∀ last ∈ entries.getLast?, last.1 < entry.1 := by
    rw [lastKey?_eq holds]
    cases entries.getLast? with
    | none => simp
    | some last => simp
  have hvalue : (entry.2.any (tombstoneMark ≤ ·.length)) = false ↔
      ∀ value ∈ entry.2, value.length < 0xFFFFFFFF := by
    cases entry.2 with
    | none => simp
    | some value =>
      simp only [Option.any_some, decide_eq_false_iff_not, Nat.not_le, Option.mem_some_iff,
        forall_eq']
      exact Iff.rfl
  unfold refusal? Acceptable
  rw [← horder, ← hvalue]
  cases draft.lastKey?.any (entry.1 ≤ ·) <;> cases entry.2.any (tombstoneMark ≤ ·.length) <;> simp

theorem feed_pieces (register : UInt32) (pieces : List Bytes) :
    pieces.foldl Checksum.feed register = Checksum.feed register pieces.flatten := by
  induction pieces generalizing register with
  | nil => rfl
  | cons piece rest ih => rw [List.foldl_cons, ih, List.flatten_cons, Checksum.feed_append]

/-- An entry that may not be added leaves no trace in the draft or on the host. -/
theorem add_of_not_acceptable (holds : draft.Holds v target entries host)
    (h : ¬ Acceptable entries entry) :
    ∃ fault, draft.add entry.1 entry.2 = throw (.storage fault) := by
  unfold add
  cases hrefusal : draft.refusal? entry.1 entry.2 with
  | none => exact absurd ((refusal?_eq_none_iff holds).1 hrefusal) h
  | some fault => exact ⟨fault, rfl⟩

/-- An entry that may be added is added, unless the host refuses it. -/
theorem ensures_add (holds : draft.Holds v target entries host)
    (acceptable : Acceptable entries entry) :
    (draft.add entry.1 entry.2).Ensures conduct
      (fun after => after.Writing v target draft.out.handle draft.out.written)
      (fun later after => draft.out.Follows later.out ∧
        later.Holds v target (entries ++ [entry]) after)
      (fun e after => (e.OfSystem ∧ conduct.Excuse) ∧
        after.Writing v target draft.out.handle draft.out.written) host := by
  have hdata : dataBytes (entries ++ [entry]) = dataBytes entries ++ entryBytes entry := by
    rw [dataBytes_append, dataBytes, dataBytes, List.flatMap_singleton]
  unfold add
  rw [(refusal?_eq_none_iff holds).2 acceptable]
  refine Action.Ensures.bind_of ((Output.ensures_putAll holds.out _).and_throws
    (Output.throws_putAll _ _)) ?_ fun _ _ failed => ⟨⟨failed.1, failed.2.1⟩, failed.2.2⟩
  rintro out after ⟨hfollows, hout⟩
  refine Action.ensures_pure ⟨hfollows, ?_, ?_, ?_, ?_⟩
  · rw [hdata, ← List.append_assoc]
    exact hout
  · rw [dataEndOf, hdata, List.length_append, ← Nat.add_assoc, holds.offset]
    rfl
  · rw [offsetsFrom_append, List.reverse_append, holds.offsets, holds.offset]
    rfl
  · rw [feed_pieces, holds.register, hdata, Checksum.feed_append]
    rfl

/-- Entries are added, unless the host refuses one or they make up no table. -/
theorem ensures_addAll (holds : draft.Holds v target entries host) :
    (draft.addAll rest).Ensures conduct
      (fun after => after.Writing v target draft.out.handle draft.out.written)
      (fun later after => later.Holds v target (entries ++ rest) after ∧
        (WellFormed entries → (∀ entry ∈ rest, entry.1.length < Bytes.fieldSize 4) →
          WellFormed (entries ++ rest)))
      (fun e after => ((e.OfSystem ∧ conduct.Excuse) ∨ ¬ WellFormed (entries ++ rest)) ∧
        after.Writing v target draft.out.handle draft.out.written) host := by
  induction rest generalizing draft entries host with
  | nil => exact Action.ensures_pure (by simpa using holds)
  | cons entry rest ih =>
    -- The entry is moved over to those that were added, so that the hypothesis fits what follows.
    rw [← List.singleton_append, ← List.append_assoc]
    unfold addAll
    by_cases hacceptable : Acceptable entries entry
    · refine Action.Ensures.bind_of (ensures_add holds hacceptable) ?_
        fun _ _ failed => ⟨Or.inl failed.1, failed.2⟩
      rintro next after ⟨hfollows, hnext⟩
      refine (ih hnext).mono ?_ ?_ ?_
      · intro stopped hwriting
        exact hfollows.writing hwriting
      · rintro later last ⟨hlast, hwell⟩
        refine ⟨hlast, fun hfront short => ?_⟩
        obtain ⟨hentry, hrest⟩ := List.forall_mem_cons.1 short
        exact hwell (hacceptable.wellFormed hfront hentry) hrest
      · rintro e last ⟨cause, hwriting⟩
        exact ⟨cause, hfollows.writing hwriting⟩
    · obtain ⟨fault, hadd⟩ := add_of_not_acceptable holds hacceptable
      refine Action.Ensures.bind ?_
      rw [hadd]
      exact Action.ensures_throw
        ⟨Or.inr fun hwell => hacceptable hwell.take.acceptable, holds.out.writing⟩

/-- A finished draft is the image of its entries. -/
theorem ensures_finish (holds : draft.Holds v target entries host) :
    draft.finish.Ensures conduct (fun after => after.Touched v target)
      (fun summary after => after.Touched v target ∧ summary.Describes entries ∧
        ∃ id, after.view.file? target = some (id, image entries))
      (fun _ after => conduct.Excuse ∧ after.Touched v target) host := by
  unfold finish
  refine Action.Ensures.bind_of (ensures_touched (Output.ensures_putAll holds.out _)) ?_
    fun _ _ h => h
  rintro full host ⟨_, hfull⟩
  refine Action.Ensures.bind_of (ensures_touched (Output.ensures_flush hfull)) ?_
    fun _ _ h => h
  rintro out host ⟨_, _, hout⟩
  -- What was noted while the entries were added makes up the index and the footer.
  have hbytes : headerOf 0 ++ dataBytes entries ++
      (indexPieces draft.offsets.reverse ++
        footerPieces draft.offset (Checksum.finish draft.register)).flatten =
      headerOf 0 ++ (bodyOf entries ++ footerOf entries) := by
    rw [holds.offsets, holds.offset, holds.register, List.reverse_reverse, List.flatten_append,
      List.append_assoc, bodyOf, List.append_assoc]
    rfl
  have hcount : draft.offsets.length = entries.length := by
    rw [holds.offsets, List.length_reverse, length_offsetsFrom]
  have hfirstKey : draft.offsets.getLast?.map (·.1) = entries.head?.map (·.1) := by
    rw [holds.offsets, List.getLast?_reverse, ← List.head?_map, map_fst_offsetsFrom,
      List.head?_map]
  rw [hbytes] at hout
  have hinside : countOffset ≤ (headerOf 0 ++ (bodyOf entries ++ footerOf entries)).length := by
    rw [List.length_append, length_headerOf]
    exact Nat.le_trans (by decide) (Nat.le_add_right headerSize _)
  have htouched := hout.writing.toTouched
  rw [hcount]
  -- The file is whole but for the number of entries, which is written over the zero in the header.
  refine Action.Ensures.bind (Action.ensures_write hout.file hout.sound hinside htouched
    (fun excuse _ => ⟨excuse, htouched⟩) ?_ ?_)
  · intro count after hsound hview
    exact ⟨hsound, hout.same.trans (.of_eq_put hview)⟩
  · intro after hsound hview
    rw [overwrite_count] at hview
    have hfile : after.view.file? target = some (out.handle.id, image entries) :=
      View.file?_of_eq_put hview
    have hsame := hout.same.trans (.of_eq_put hview)
    refine Action.Ensures.bind (Action.ensures_sync hfile hsound ⟨hsound, hsame⟩ ?_)
    intro synced hsound' hview'
    have hfile' : synced.view.file? target = some (out.handle.id, image entries) := by
      rw [hview']
      exact hfile
    rw [← View.put_eq_self _ _ _ hfile] at hview'
    have hsynced : synced.Touched v target := ⟨hsound', hsame.trans (hsound'.sameBut hview')⟩
    refine ⟨hsynced, Action.Ensures.bind (Action.ensures_size hfile' hsynced ?_)⟩
    refine Action.ensures_pure ⟨hsynced, ⟨rfl, rfl, ?_, ?_⟩, _, hfile'⟩
    · intro first hfirst
      rw [hfirstKey, hfirst]
      rfl
    · intro last hlast
      rw [lastKey?_eq holds, hlast]
      rfl

/-- Giving a draft up touches no other file. -/
theorem ensures_abandon (writing : host.Writing v target draft.out.handle draft.out.written) :
    draft.abandon.Ensures conduct (fun after => after.Touched v target)
      (fun _ after => after.Touched v target) host := by
  obtain ⟨bytes, hsize, hfile⟩ := writing.file
  unfold abandon Output.flush Output.writeThrough
  refine Action.Ensures.script_bind (Action.Ensures.bind ?_)
  cases draft.out.pending.toList with
  | nil => exact writing.toTouched
  | cons byte pending =>
    refine Action.Ensures.bind (Action.ensures_write hfile writing.sound hsize writing.toTouched
      (fun _ _ => writing.toTouched) ?_ ?_)
    · intro count after hsound hview
      exact ⟨hsound, writing.same.trans (.of_eq_put hview)⟩
    · intro after hsound hview
      exact ⟨hsound, writing.same.trans (.of_eq_put hview)⟩

end Draft

end Table

end OrderedStore
