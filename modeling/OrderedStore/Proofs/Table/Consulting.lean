import OrderedStore.Proofs.Host.Stored
import OrderedStore.Proofs.KeyMap
import OrderedStore.Proofs.Table.Reading

/-!
# What any file says as a table

A file among the tables may hold anything. Its bytes decide whether it opens as a table, and what
it says about a key then; reading it leaves the host as it is.

Main definitions:

- `Table.layout?`: what a reader keeps of a file of some bytes, if it opens.
- `Table.Layout.ofFile`: the same, or what is wrong with the bytes.
- `Table.consult?`: what a file of some bytes says about a key, if that can be read.

Main statements: `Table.ensures_start_any`, `Table.perform_start`, `Table.ensures_find?_any`,
`Table.consult?_image`.
-/

namespace OrderedStore

variable {conduct : Conduct} {stop : Host → Prop} {host : Host} {handle : Handle} {path : Path}
  {target : Location} {err : Error → Host → Prop}

/-! ## Whatever file is read as a table -/

namespace Table

variable {table : Table} {bytes key : Bytes} {entries : List TableEntry}

/-- What a reader keeps of a file of some bytes; `none` if it does not open. The name of the file
counts in the error only. -/
def layout? (bytes : Bytes) : Option Layout :=
  let size := bytes.length
  if size < headerSize + footerSize then none
  else do
    let header := bytes.take headerSize
    let footer := (bytes.drop (size - footerSize)).take footerSize
    let body := (bytes.drop headerSize).take (size - headerSize - footerSize)
    let ends ← (Ends.read "" size header footer).toOption
    (Layout.ofBody "" ends body).toOption

/-- What a file of some bytes says about a key of its index: nothing, a value, or that it was
deleted; `none` if that cannot be read. -/
def Layout.consult? (layout : Layout) (bytes key : Bytes) : Option (Option (Option Bytes)) :=
  match layout.offsets.find? key with
  | none => some none
  | some offset => do
    let lengths ← bytes.slice? offset 8
    let keyLength := Bytes.ofLittleEndian (lengths.take 4)
    let valueLength := Bytes.ofLittleEndian (lengths.drop 4)
    if valueLength = tombstoneMark then some (some none)
    else
      let value ← bytes.slice? (offset + 8 + keyLength) valueLength
      some (some (some value))

/-- What a file of some bytes says about a key; `none` if it does not open or cannot be read. -/
def consult? (bytes key : Bytes) : Option (Option (Option Bytes)) :=
  (layout? bytes).bind fun layout => layout.consult? bytes key

theorem Ends.toOption_read (file file' : String) (size : Nat) (header footer : Bytes) :
    (Ends.read file size header footer).toOption =
      (Ends.read file' size header footer).toOption := by
  simp only [Ends.read]
  split <;> first | rfl | (split <;> first | rfl | (split <;> rfl))

theorem Layout.toOption_ofBody (file file' : String) (ends : Ends) (body : Bytes) :
    (Layout.ofBody file ends body).toOption = (Layout.ofBody file' ends body).toOption := by
  simp only [Layout.ofBody, Layout.ofIndex]
  split
  · rfl
  · split <;> rfl

/-- Where the data of a table is said to end is checked. -/
theorem Ends.bounds_of_read {file : String} {size : Nat} {header footer : Bytes} {ends : Ends}
    (h : Ends.read file size header footer = .ok ends) :
    headerSize ≤ ends.dataEnd ∧ ends.dataEnd ≤ size - footerSize := by
  simp only [Ends.read] at h
  split at h
  · cases h
  split at h
  · cases h
  split at h
  · cases h
  · rename_i hinside
    cases h
    simp only
    omega

theorem layout?_eq_bind (big : ¬ bytes.length < headerSize + footerSize) (file : String) :
    layout? bytes =
      (Ends.read file bytes.length (bytes.take headerSize)
        ((bytes.drop (bytes.length - footerSize)).take footerSize)).toOption.bind fun ends =>
          (Layout.ofBody file ends ((bytes.drop headerSize).take
            (bytes.length - headerSize - footerSize))).toOption := by
  simp only [layout?, if_neg big]
  rw [Ends.toOption_read "" file]
  exact Option.bind_congr fun ends _ => Layout.toOption_ofBody "" file ends _

/-- What a reader makes of a file of some bytes: what it keeps, or what is wrong with them. -/
def Layout.ofFile (file : String) (bytes : Bytes) : Except StorageFault Layout :=
  let size := bytes.length
  if size < headerSize + footerSize then .error (.tooSmall file size)
  else
    match Ends.read file size (bytes.take headerSize)
      ((bytes.drop (size - footerSize)).take footerSize) with
    | .error fault => .error fault
    | .ok ends =>
      Layout.ofBody file ends ((bytes.drop headerSize).take (size - headerSize - footerSize))

theorem layout?_eq_toOption (file : String) (bytes : Bytes) :
    layout? bytes = (Layout.ofFile file bytes).toOption := by
  unfold Layout.ofFile
  by_cases hsmall : bytes.length < headerSize + footerSize
  · simp only [layout?, hsmall, if_true]
    rfl
  · rw [layout?_eq_bind hsmall file]
    simp only [hsmall, if_false]
    cases Ends.read file bytes.length (bytes.take headerSize)
        ((bytes.drop (bytes.length - footerSize)).take footerSize) with
    | error fault => rfl
    | ok ends => rfl

/-- Where a file can be opened for reading, it is opened as what its bytes say, whatever the
capacity of the buffer, or refused for what is wrong with them. -/
theorem ensures_start_bytes {place : Location} {id capacity : Nat} (sound : host.Sound)
    (file : host.view.file? place = some (id, bytes)) (same : stop host)
    (refused : ∀ fault, Layout.ofFile path.text bytes = .error fault → err (.storage fault) host)
    (opening : (Action.openFile path .read).Ensures conduct stop
      (fun handle after => handle = ⟨id⟩ ∧ after = host) err host) :
    (Table.start path capacity).Ensures conduct stop
      (fun table after => after = host ∧ table.path = path ∧ table.handle = ⟨id⟩ ∧
        Layout.ofFile path.text bytes = .ok table.layout) err host := by
  have hlimit : bytes.length ≤ Disk.sizeLimit := sound.length_le file
  have file' : host.view.file? place = some ((⟨id⟩ : Handle).id, bytes) := file
  unfold Table.start
  unfold Layout.ofFile at refused ⊢
  refine Action.Ensures.bind_of opening ?_ fun _ _ h => h
  rintro handle opened ⟨rfl, hsame⟩
  rw [hsame]
  refine Action.Ensures.bind (Action.ensures_size file' same ?_)
  by_cases hsmall : bytes.length < headerSize + footerSize
  · simp only [hsmall, if_true] at refused ⊢
    exact Action.ensures_throw (refused _ rfl)
  simp only [hsmall, if_false] at refused ⊢
  refine Action.Ensures.bind (Action.ensures_readExactly file' sound (by omega) same ?_)
  refine Action.Ensures.bind (Action.ensures_readExactly file' sound (by omega) same ?_)
  rw [List.drop_zero]
  cases hends : Ends.read path.text bytes.length (bytes.take headerSize)
      ((bytes.drop (bytes.length - footerSize)).take footerSize) with
  | error fault =>
    rw [hends] at refused
    exact Action.ensures_throw (refused fault rfl)
  | ok ends =>
    simp only [hends] at refused
    obtain ⟨hbehind, hinside⟩ := Ends.bounds_of_read hends
    obtain ⟨content, hcontent, rfl⟩ := Action.contentOf_handle file'
    refine Action.Ensures.bind_of (ensures_readLayout hcontent hbehind (by omega) same) ?_ ?_
    · rintro layout _ ⟨rfl, hlayout⟩
      exact Action.ensures_pure ⟨rfl, rfl, rfl, hlayout⟩
    · rintro e _ ⟨rfl, hfaulty⟩
      obtain ⟨fault, rfl, hfault⟩ := hfaulty hlimit
      exact refused fault hfault

theorem ensures_start_stored {place : Location} {id capacity : Nat} (steady : conduct.Steady)
    (sound : host.Sound) (stored : host.Stores path place id bytes) (same : stop host) :
    (Table.start path capacity).Ensures conduct stop
      (fun table after => after = host ∧ table.path = path ∧ table.handle = ⟨id⟩ ∧
        Layout.ofFile path.text bytes = .ok table.layout)
      (fun e after => after = host ∧
        ∃ fault, e = .storage fault ∧ Layout.ofFile path.text bytes = .error fault) host :=
  ensures_start_bytes sound stored.file same (fun fault hfault => ⟨rfl, fault, rfl, hfault⟩)
    (Action.ensures_openFile_stored (Or.inl rfl) stored same (absurd steady) ⟨rfl, rfl⟩)

/-- What stands under the path of an entry is opened if its bytes say that it is a table. -/
theorem ensures_start_named {place : Location} {id capacity : Nat} {layout : Layout}
    (sound : host.Sound) (names : host.view.Names path place)
    (file : host.view.file? place = some (id, bytes)) (opens : layout? bytes = some layout)
    (same : stop host) :
    (Table.start path capacity).Ensures conduct stop
      (fun table after => after = host ∧ table.path = path ∧ table.handle = ⟨id⟩ ∧
        table.layout = layout)
      (fun _ after => after = host ∧ conduct.Excuse) host := by
  rw [layout?_eq_toOption path.text] at opens
  refine (ensures_start_bytes sound file same ?_ (Action.ensures_openFile_present (Or.inl rfl)
    names file same (fun excuse _ _ => ⟨rfl, excuse⟩) fun _ => ⟨rfl, rfl⟩)).mono
    (fun _ h => h) ?_ fun _ _ h => h
  · intro fault hfault
    rw [hfault] at opens
    cases opens
  · rintro table after ⟨hsame, hpath, hhandle, hlayout⟩
    rw [hlayout] at opens
    exact ⟨hsame, hpath, hhandle, Option.some.inj opens⟩

/-- What stands under the path of an entry is opened as a table if its bytes say so. -/
theorem ensures_start_any {capacity : Nat} (names : host.view.Names path target)
    (same : stop host) :
    (Table.start path capacity).Ensures conduct stop
      (fun table after => after = host ∧ table.path = path ∧ ∃ bytes,
        host.view.file? target = some (table.handle.id, bytes) ∧
        layout? bytes = some table.layout)
      (fun _ after => after = host) host := by
  unfold Table.start
  refine Action.Ensures.bind (Action.ensures_openFile_read names same (fun _ => rfl) ?_)
  intro handle hfile
  refine Action.Ensures.bind (Action.ensures_sizeOf same ?_)
  split
  · exact Action.ensures_throw rfl
  rename_i hbig
  refine Action.Ensures.bind (Action.ensures_readExactly_any same (fun _ _ => rfl) ?_)
  intro content header hcontent hheader
  have hsize : host.disk.sizeOf handle = content.toList.length := by
    rw [Disk.sizeOf, hcontent, Content.length_toList]
  rw [hsize] at hbig ⊢
  refine Action.Ensures.bind (Action.ensures_readExactly_any same (fun _ _ => rfl) ?_)
  intro _ footer hcontent' hfooter
  cases hcontent.symm.trans hcontent'
  obtain rfl := Bytes.eq_of_slice? hheader
  obtain rfl := Bytes.eq_of_slice? hfooter
  rw [List.drop_zero] at hheader ⊢
  have hlayout := layout?_eq_bind hbig path.text
  cases hends : Ends.read path.text content.toList.length (content.toList.take headerSize)
      ((content.toList.drop (content.toList.length - footerSize)).take footerSize) with
  | error fault => exact Action.ensures_throw rfl
  | ok ends =>
    obtain ⟨hbehind, hinside⟩ := Ends.bounds_of_read hends
    rw [hends] at hlayout
    refine Action.Ensures.bind_of (ensures_readLayout hcontent hbehind (by omega) same) ?_
      fun _ _ failed => failed.1
    rintro layout _ ⟨rfl, hread⟩
    refine Action.ensures_pure ⟨rfl, rfl, content.toList, hfile content hcontent, ?_⟩
    rw [hlayout]
    exact congrArg Except.toOption hread

/-- On the host in memory nothing but the bytes of the file decides how opening it ends. -/
theorem perform_start {place : Location} {id capacity : Nat} (sound : host.Sound)
    (stored : host.Stores path place id bytes) :
    (Table.start path capacity).perform host =
      (match Layout.ofFile path.text bytes with
        | .ok layout => .ok ⟨path, ⟨id⟩, layout⟩
        | .error fault => .error (.storage fault), host) := by
  have hopened := Script.Ensures.run (@ensures_start_stored .own (fun _ => True) host path bytes
    place id capacity Conduct.steady_own sound stored trivial)
  rw [Action.perform]
  generalize Script.run (Table.start path capacity).run host = result at hopened ⊢
  obtain ⟨e | ⟨path', handle, layout⟩, after⟩ := result
  · obtain ⟨rfl, fault, rfl, hfault⟩ := hopened
    rw [hfault]
  · obtain ⟨rfl, rfl, rfl, hlayout⟩ := hopened
    rw [hlayout]

section Entry

variable (file : host.view.file? target = some (table.handle.id, bytes))

include file

theorem ensures_readLengths_any {offset : Nat} (same : stop host) :
    (table.readLengths offset).Ensures conduct stop
      (fun lengths after => after = host ∧ ∃ found, bytes.slice? offset 8 = some found ∧
        lengths = (Bytes.ofLittleEndian (found.take 4), Bytes.ofLittleEndian (found.drop 4)))
      (fun _ after => after = host ∧ bytes.slice? offset 8 = none) host := by
  obtain ⟨content, hcontent, rfl⟩ := Action.contentOf_handle file
  unfold readLengths
  refine Action.Ensures.bind (Action.ensures_readExactly_any same ?_ ?_)
  · exact fun hnone _ => ⟨rfl, hnone content hcontent⟩
  · intro _ found hcontent' hfound
    cases hcontent.symm.trans hcontent'
    exact Action.ensures_pure ⟨rfl, found, hfound, rfl⟩

theorem ensures_readValue_any {offset length : Nat} (same : stop host) :
    (table.readValue offset length).Ensures conduct stop
      (fun value? after => after = host ∧
        (if length = tombstoneMark then some none
          else (bytes.slice? offset length).map some) = some value?)
      (fun _ after => after = host ∧ length ≠ tombstoneMark ∧ bytes.slice? offset length = none)
      host := by
  obtain ⟨content, hcontent, rfl⟩ := Action.contentOf_handle file
  unfold readValue
  by_cases hmark : length = tombstoneMark
  · simp only [if_pos hmark]
    exact Action.ensures_pure ⟨rfl, rfl⟩
  · simp only [if_neg hmark]
    refine Action.Ensures.bind (Action.ensures_readExactly_any same ?_ ?_)
    · exact fun hnone _ => ⟨rfl, hmark, hnone content hcontent⟩
    · intro _ found hcontent' hfound
      cases hcontent.symm.trans hcontent'
      refine Action.ensures_pure ⟨rfl, ?_⟩
      rw [hfound]
      rfl

/-- A table says about a key what the bytes of its file say, and fails where they say nothing that
can be read. -/
theorem ensures_find?_any (same : stop host) :
    (table.find? key).Ensures conduct stop
      (fun found after => after = host ∧ table.layout.consult? bytes key = some found)
      (fun _ after => after = host ∧ table.layout.consult? bytes key = none) host := by
  unfold Table.find? Layout.consult?
  cases table.layout.offsets.find? key with
  | none => exact Action.ensures_pure ⟨rfl, rfl⟩
  | some offset =>
    refine Action.Ensures.bind_of (ensures_readLengths_any file same) ?_ ?_
    swap
    · rintro e _ ⟨rfl, hnone⟩
      exact ⟨rfl, by simp [hnone]⟩
    rintro lengths _ ⟨rfl, found, hfound, rfl⟩
    simp only [hfound, Option.bind_eq_bind, Option.bind_some]
    refine Action.Ensures.bind_of (ensures_readValue_any file same) ?_ ?_
    · rintro value? _ ⟨rfl, hvalue⟩
      refine Action.ensures_pure ⟨rfl, ?_⟩
      split at hvalue
      · rename_i hmark
        cases hvalue
        rw [if_pos hmark]
      · rename_i hmark
        obtain ⟨value, hslice, rfl⟩ := Option.map_eq_some_iff.1 hvalue
        rw [if_neg hmark, hslice]
        rfl
    · rintro e _ ⟨rfl, hmark, hnone⟩
      exact ⟨rfl, by simp [hmark, hnone]⟩

end Entry

/-! ## The images of tables -/

theorem layout?_image (h : WellFormed entries)
    (size : (image entries).length < Bytes.fieldSize 8) :
    layout? (image entries) = some (layoutOf entries) := by
  have hlength := length_image entries
  rw [layout?_eq_bind (by omega) "", take_image_header, take_image_footer, take_image_body,
    Ends.read_image "" size]
  exact congrArg Except.toOption (Layout.ofBody_image h "" size)

/-- The image of a table says what the entries of the table say. -/
theorem consult?_image (h : WellFormed entries) (size : (image entries).length ≤ Disk.sizeLimit)
    (key : Bytes) : consult? (image entries) key = some (KeyMap.lookup key entries) := by
  have hsize : (image entries).length < Bytes.fieldSize 8 := Nat.lt_of_le_of_lt size (by decide)
  have hfind : (layoutOf entries).offsets.find? key =
      KeyMap.lookup key (offsetsFrom headerSize entries) := by
    rw [KeyMap.find?, toList_offsets h]
  rw [consult?, layout?_image h hsize, Option.bind_some, Layout.consult?, hfind]
  rcases lookup_offsetsFrom key headerSize entries with ⟨hnone, hoffset⟩ |
    ⟨front, value?, rest, hentries, hsome, hoffset⟩
  · rw [hoffset, hnone]
  · rw [hoffset, hsome]
    have hfits : Fits (key, value?) := h.fits (by simp [hentries])
    obtain ⟨more, stands⟩ := drop_image front (key, value?) rest
    rw [← hentries] at stands
    simp only
    -- The index leads to an entry of the image, whose lengths lead to its value.
    rw [Bytes.slice?_of_inside (lengths_inside stands) size, take_lengths stands]
    simp only [Option.bind_eq_bind, Option.bind_some,
      List.take_left' (Bytes.length_littleEndian 4 _),
      List.drop_left' (Bytes.length_littleEndian 4 _),
      Bytes.ofLittleEndian_littleEndian_of_lt hfits.key,
      Bytes.ofLittleEndian_littleEndian_of_lt hfits.valueLength_lt]
    cases value? with
    | none => rfl
    | some value =>
      have hne : valueLength (some value) ≠ tombstoneMark := Nat.ne_of_lt (hfits.value value rfl)
      simp only [if_neg hne]
      rw [show valueLength (some value) = value.length from rfl,
        Bytes.slice?_of_inside (value_inside stands rfl) size, take_value stands rfl]
      rfl

end Table

end OrderedStore
