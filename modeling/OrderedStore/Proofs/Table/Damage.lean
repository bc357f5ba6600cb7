import OrderedStore.Proofs.Log.Damage
import OrderedStore.Proofs.Table.Answers
import OrderedStore.Proofs.Table.Consulting

/-!
# Damage to a table

Up to four bytes in a row are changed in the file of a finished table: in its data, in the checksum
of the data, or in the letters and the version that it begins with. Whoever opens the file then,
through a buffer of whatever capacity, is told that it is no table. Keys of any length may be among
the entries, since the data is checked before the index is read.

Main definitions:

- `Table.Field`: the parts of a table file in which every small change is noticed.
- `Table.Damage`: what may stand in place of the file of a table.

Main statement: `Table.start_damaged`.
-/

namespace OrderedStore.Table

variable {host : Host} {path : Path} {draft : Draft} {entries offers : List TableEntry}
  {bytes front old new back : Bytes} {layout : Layout}

/-! ## What may be damaged -/

/-- The parts of a table file in which every small change is noticed. The number of entries, the
index and the place of the index are not among them: no checksum covers these. -/
inductive Field where
  /-- The letters and the version in the header. -/
  | mark
  | data
  /-- The checksum of the data in the footer. -/
  | checksum

/-- Where a part begins in the file of some entries, and where it ends. -/
def Field.span (entries : List TableEntry) : Field → Nat × Nat
  | .mark => (0, countOffset)
  | .data => (headerSize, dataEndOf entries)
  | .checksum => ((image entries).length - 8, (image entries).length - 4)

/-- What may stand in place of the file of some entries: the file with other bytes in one place of
a part. -/
inductive Damage (entries : List TableEntry) : Bytes → Prop where
  | burst {front old new back : Bytes} {field : Field} :
      image entries = front ++ old ++ back →
      (field.span entries).1 ≤ front.length →
      front.length + old.length ≤ (field.span entries).2 →
      old.length ≤ 4 → new.length = old.length → new ≠ old →
      Damage entries (front ++ new ++ back)

/-! ## The parts of a table file -/

/-- A file in parts, of which the footer finds the end of the data. -/
structure Parts where
  /-- The letters and the version. -/
  mark : Bytes
  /-- The number of entries. -/
  count : Bytes
  data : Bytes
  index : Bytes
  /-- Where the data ends. -/
  dataEnd : Bytes
  /-- The checksum of the data. -/
  sum : Bytes
  /-- What is left of the footer. -/
  pad : Bytes
  markSize : mark.length = countOffset
  countSize : count.length = 8
  dataEndSize : dataEnd.length = 8
  sumSize : sum.length = 4
  padSize : pad.length = 4
  located : Bytes.ofLittleEndian dataEnd = headerSize + data.length

namespace Parts

variable {parts : Parts}

/-- The bytes of the file. -/
def join (parts : Parts) : Bytes :=
  (parts.mark ++ parts.count) ++
    ((parts.data ++ parts.index) ++ (parts.dataEnd ++ (parts.sum ++ parts.pad)))

/-- The mark is that of a table, and the checksum is that of the data. -/
structure Valid (parts : Parts) : Prop where
  mark : parts.mark = magic ++ Bytes.littleEndian 2 version
  sum : parts.sum = Bytes.littleEndian 4 (Checksum.crc32 parts.data).toNat

theorem length_header (parts : Parts) : (parts.mark ++ parts.count).length = headerSize := by
  rw [List.length_append, parts.markSize, parts.countSize]
  rfl

theorem length_footer (parts : Parts) :
    (parts.dataEnd ++ (parts.sum ++ parts.pad)).length = footerSize := by
  simp only [List.length_append, parts.dataEndSize, parts.sumSize, parts.padSize]
  rfl

theorem length_join (parts : Parts) :
    parts.join.length = headerSize + (parts.data ++ parts.index).length + footerSize := by
  rw [join, List.length_append, @List.length_append _ (parts.data ++ parts.index),
    length_header, length_footer, Nat.add_assoc]

end Parts

/-- The file of entries is made of valid parts. -/
theorem exists_parts (size : (image entries).length < Bytes.fieldSize 8) :
    ∃ parts : Parts, parts.Valid ∧ parts.data = dataBytes entries ∧
      parts.join = image entries := by
  have hend : dataEndOf entries < Bytes.fieldSize 8 := by
    have hlength := length_image entries
    have hbody := length_dataBytes_le_length_bodyOf entries
    rw [dataEndOf]
    omega
  refine ⟨{
    mark := magic ++ Bytes.littleEndian 2 version
    count := Bytes.littleEndian 8 entries.length
    data := dataBytes entries
    index := (indexPieces (offsetsFrom headerSize entries)).flatten
    dataEnd := Bytes.littleEndian 8 (dataEndOf entries)
    sum := Bytes.littleEndian 4 (Checksum.crc32 (dataBytes entries)).toNat
    pad := [0, 0, 0, 0]
    markSize := rfl
    countSize := Bytes.length_littleEndian ..
    dataEndSize := Bytes.length_littleEndian ..
    sumSize := Bytes.length_littleEndian ..
    padSize := rfl
    located := Bytes.ofLittleEndian_littleEndian_of_lt hend }, ⟨rfl, rfl⟩, rfl, ?_⟩
  simp only [Parts.join, image, headerOf, headerPieces, bodyOf, footerOf, footerPieces,
    List.flatten_cons, List.flatten_nil, List.append_nil, List.append_assoc]

/-- A header that is read has the mark of a table, and the footer says where the data ends and what
its checksum is. -/
theorem Ends.eq_of_read {file : String} {size : Nat} {header footer : Bytes} {ends : Ends}
    (h : Ends.read file size header footer = .ok ends) :
    header.take 4 = magic ∧ Bytes.ofLittleEndian ((header.drop 4).take 2) = version ∧
      ends.dataEnd = Bytes.ofLittleEndian (footer.take 8) ∧
      ends.checksum = Bytes.ofLittleEndian ((footer.drop 8).take 4) := by
  simp only [Ends.read] at h
  split at h
  · cases h
  split at h
  · cases h
  split at h
  · cases h
  · rename_i hmagic hversion _
    cases h
    exact ⟨not_not.1 hmagic, not_not.1 hversion, rfl, rfl⟩

namespace Parts

variable {parts : Parts}

/-- A file in parts is read part by part. -/
theorem ofFile_join (parts : Parts) (file : String) :
    Layout.ofFile file parts.join =
      match Ends.read file parts.join.length (parts.mark ++ parts.count)
        (parts.dataEnd ++ (parts.sum ++ parts.pad)) with
      | .error fault => .error fault
      | .ok ends => Layout.ofBody file ends (parts.data ++ parts.index) := by
  have hlength := parts.length_join
  have hheader : parts.join.take headerSize = parts.mark ++ parts.count :=
    List.take_left' parts.length_header
  have hrest : parts.join.drop headerSize =
      (parts.data ++ parts.index) ++ (parts.dataEnd ++ (parts.sum ++ parts.pad)) :=
    List.drop_left' parts.length_header
  have hbody : (parts.join.drop headerSize).take
      (parts.join.length - headerSize - footerSize) = parts.data ++ parts.index := by
    rw [hrest]
    exact List.take_left' (by omega)
  have hfooter : (parts.join.drop (parts.join.length - footerSize)).take footerSize =
      parts.dataEnd ++ (parts.sum ++ parts.pad) := by
    have hplace : parts.join.length - footerSize =
        headerSize + (parts.data ++ parts.index).length := by omega
    rw [hplace, ← List.drop_drop, hrest, List.drop_left]
    exact List.take_of_length_le (Nat.le_of_eq parts.length_footer)
  have hlong : ¬ parts.join.length < headerSize + footerSize := by omega
  rw [← hheader, ← hbody, ← hfooter]
  exact if_neg hlong

/-- What opens as a table has the mark of a table and the checksum of its data. -/
theorem valid_of_ofFile {file : String} (h : Layout.ofFile file parts.join = .ok layout) :
    parts.Valid := by
  rw [ofFile_join] at h
  cases hends : Ends.read file parts.join.length (parts.mark ++ parts.count)
      (parts.dataEnd ++ (parts.sum ++ parts.pad)) with
  | error fault =>
    rw [hends] at h
    cases h
  | ok ends =>
    obtain ⟨hmagic, hversion, hplace, hsum⟩ := Ends.eq_of_read hends
    simp only [hends, Layout.ofBody] at h
    rw [List.take_left' parts.dataEndSize, parts.located] at hplace
    rw [List.drop_left' parts.dataEndSize, List.take_left' parts.sumSize] at hsum
    rw [hplace, Nat.add_sub_cancel_left, List.take_left, hsum] at h
    constructor
    -- The first four bytes of the mark are compared, and the number that the others stand for.
    · have hletters : parts.mark.take 4 = magic := by
        rw [← hmagic, List.take_append_of_le_length (by rw [parts.markSize]; decide)]
      have hnumber : Bytes.ofLittleEndian (parts.mark.drop 4) = version := by
        rw [← hversion, List.drop_append_of_le_length (by rw [parts.markSize]; decide),
          List.take_left' (by rw [List.length_drop, parts.markSize]; rfl)]
      have hwritten := Bytes.littleEndian_ofLittleEndian (parts.mark.drop 4)
      rw [hnumber, List.length_drop, parts.markSize] at hwritten
      rw [← List.take_append_drop 4 parts.mark, hletters, ← hwritten]
      rfl
    · split at h
      · cases h
      · rename_i hequal
        rw [not_not.1 hequal, ← parts.sumSize, Bytes.littleEndian_ofLittleEndian]

end Parts

/-! ## Damaged files -/

section Burst

variable {parts : Parts} (valid : parts.Valid)
include valid

/-- A file with a changed mark is made of parts that are not valid. -/
theorem Parts.Valid.burst_mark (whole : parts.join = front ++ old ++ back)
    (inside : front.length + old.length ≤ countOffset) (same : new.length = old.length)
    (different : new ≠ old) :
    ∃ changed : Parts, changed.join = front ++ new ++ back ∧ ¬ changed.Valid := by
  have hsize := parts.markSize
  rw [join, List.append_assoc] at whole
  obtain ⟨middle, hmark, hback⟩ := Log.exists_of_append_eq whole.symm (by
    rw [List.length_append, hsize]
    exact inside)
  rw [hmark] at hsize
  refine ⟨{ parts with mark := front ++ new ++ middle, markSize := by simpa [same] using hsize },
    by simp [join, hback], fun h => ?_⟩
  have hchanged : front ++ new ++ middle = front ++ old ++ middle := by
    rw [← hmark, valid.mark]
    exact h.mark
  exact different (List.append_cancel_left (List.append_cancel_right hchanged))

/-- A file with changed data is made of parts that are not valid. -/
theorem Parts.Valid.burst_data (whole : parts.join = front ++ old ++ back)
    (start : headerSize ≤ front.length)
    (inside : front.length + old.length ≤ headerSize + parts.data.length) (few : old.length ≤ 4)
    (same : new.length = old.length) (different : new ≠ old) :
    ∃ changed : Parts, changed.join = front ++ new ++ back ∧ ¬ changed.Valid := by
  rw [join, List.append_assoc front] at whole
  obtain ⟨before, rfl, hrest⟩ := Log.exists_of_append_eq whole (by rwa [parts.length_header])
  rw [List.length_append, parts.length_header] at inside
  rw [← List.append_assoc before, List.append_assoc parts.data] at hrest
  obtain ⟨middle, hdata, hback⟩ := Log.exists_of_append_eq hrest.symm (by
    rw [List.length_append]
    omega)
  have hlocated := parts.located
  rw [hdata] at hlocated
  refine ⟨{ parts with
      data := before ++ new ++ middle, located := by simpa [same] using hlocated },
    by simp [join, hback], fun h => ?_⟩
  have hsum := h.sum
  simp only at hsum
  rw [valid.sum, hdata] at hsum
  exact Checksum.crc32_ne_of_burst same.symm few different (Log.eq_of_littleEndian_toNat hsum).symm

/-- A file with another checksum is made of parts that are not valid. -/
theorem Parts.Valid.burst_sum (whole : parts.join = front ++ old ++ back)
    (start : parts.join.length - 8 ≤ front.length)
    (inside : front.length + old.length ≤ parts.join.length - 4)
    (same : new.length = old.length) (different : new ≠ old) :
    ∃ changed : Parts, changed.join = front ++ new ++ back ∧ ¬ changed.Valid := by
  have hsize := parts.sumSize
  have hsplit : parts.join =
      (parts.mark ++ parts.count ++ (parts.data ++ parts.index) ++ parts.dataEnd) ++
        (parts.sum ++ parts.pad) := by
    simp [join]
  rw [hsplit] at whole start inside
  rw [List.length_append, @List.length_append _ parts.sum, hsize, parts.padSize]
    at start inside
  rw [List.append_assoc front] at whole
  obtain ⟨before, rfl, hrest⟩ := Log.exists_of_append_eq whole (by omega)
  rw [List.length_append] at inside
  rw [← List.append_assoc before] at hrest
  obtain ⟨middle, hsum, hback⟩ := Log.exists_of_append_eq hrest.symm (by
    rw [List.length_append, hsize]
    omega)
  rw [hsum] at hsize
  refine ⟨{ parts with sum := before ++ new ++ middle, sumSize := by simpa [same] using hsize },
    by simp [join, hback], fun h => ?_⟩
  -- The data is as before, so its checksum is.
  have hchanged : before ++ new ++ middle = before ++ old ++ middle := by
    rw [← hsum, valid.sum]
    exact h.sum
  exact different (List.append_cancel_left (List.append_cancel_right hchanged))

end Burst

/-- A damaged file is no table. -/
theorem Damage.ofFile_eq_error (damage : Damage entries bytes)
    (size : (image entries).length < Bytes.fieldSize 8) (file : String) :
    ∃ fault, Layout.ofFile file bytes = .error fault := by
  obtain ⟨parts, hvalid, hdata, himage⟩ := exists_parts size
  have hchanged : ∃ changed : Parts, changed.join = bytes ∧ ¬ changed.Valid := by
    cases damage with
    | @burst front old new back field whole start inside few same different =>
      rw [← himage] at whole
      cases field with
      | mark => exact hvalid.burst_mark whole inside same different
      | data =>
        rw [Field.span, dataEndOf, ← hdata] at start inside
        exact hvalid.burst_data whole start inside few same different
      | checksum =>
        rw [Field.span, ← himage] at start inside
        exact hvalid.burst_sum whole start inside same different
  obtain ⟨changed, rfl, hinvalid⟩ := hchanged
  cases hresult : Layout.ofFile file changed.join with
  | error fault => exact ⟨fault, rfl⟩
  | ok layout => exact absurd (Parts.valid_of_ofFile hresult) hinvalid

/-! ## Finished tables -/

/-- A draft was started, any entries were offered to it, none of them failed to be written, and the
draft was finished. The file holds the entries that were accepted then. If it is damaged, whoever
opens it, under whatever path and through a buffer of whatever capacity, is told that it is no
table, and nothing is changed by that. -/
theorem start_damaged {begun after : Host} {capacity : Nat} {answers : List (Except Error Unit)}
    {summary : Summary} (sound : host.Sound)
    (started : (Draft.start path capacity).perform host = (.ok draft, begun))
    (completed : (draft.complete offers).perform begun = (.ok (answers, summary), after))
    (unhindered : ∀ e, .error e ∈ answers → ∃ fault, e = .storage fault) :
    after.disk.content? path = some (image (accepted offers)) ∧
      ∀ bytes, Damage (accepted offers) bytes → ∀ (other : Host) (found : Path), other.Sound →
        other.disk.content? found = some bytes → ∀ capacity,
          ∃ fault,
            (Table.start found capacity).perform other = (.error (.storage fault), other) := by
  obtain ⟨v, place, id, written, holds, stored⟩ := Draft.exists_holds_of_start sound started
  obtain ⟨front, hstands, _⟩ := holds.out
  have hrun := Script.Ensures.run (@Draft.ensures_complete .own begun v place draft offers holds)
  rw [Action.perform] at completed
  rw [completed] at hrun
  have hkept := hrun.resolve_left fun hindered => by
    obtain ⟨_, e, hmem, system, rfl⟩ := hindered
    obtain ⟨_, hstorage⟩ := unhindered _ hmem
    cases hstorage
  obtain ⟨_, _, htouched, id', hfile⟩ := hkept
  have hsize : (image (accepted offers)).length < Bytes.fieldSize 8 :=
    Nat.lt_of_le_of_lt (htouched.sound.length_le hfile) (by decide)
  refine ⟨Host.content?_eq_some_iff.2
    ⟨place, id', stored.change (hstands.same.symm.trans htouched.same) hfile⟩, ?_⟩
  intro bytes damage other found hother hcontent capacity
  obtain ⟨there, owner, hstored⟩ := Host.content?_eq_some_iff.1 hcontent
  obtain ⟨fault, hfault⟩ := damage.ofFile_eq_error hsize found.text
  have hopened := Script.Ensures.run (@ensures_start_stored .own (fun _ => True) other found bytes
    there owner capacity Conduct.steady_own hother hstored trivial)
  exact ⟨fault, by rw [perform_start hother hstored, hfault]⟩

/-- The last byte of a value is changed in a table of which one offer was refused. -/
theorem start_damaged_value :
    ∃ (host begun after other : Host) (draft : Draft) (answers : List (Except Error Unit))
      (summary : Summary) (bytes : Bytes),
      (Draft.start (.ofText "table") 0).perform host = (.ok draft, begun) ∧
      (draft.complete [([1], some [7, 8]), ([1], none)]).perform begun =
        (.ok (answers, summary), after) ∧
      after.disk.content? (.ofText "table") = some (image [([1], some [7, 8])]) ∧
      bytes = (image [([1], some [7, 8])]).set 24 9 ∧
      other.disk.content? (.ofText "file") = some bytes ∧
      ∃ fault,
        (Table.start (.ofText "file") 3).perform other = (.error (.storage fault), other) := by
  have hfinished : (match (Draft.start (.ofText "table") 0).perform Host.empty with
      | (.ok draft, begun) =>
        match (draft.complete [([1], some [7, 8]), ([1], none)]).perform begun with
        | (.ok (answers, _), _) => answers.all fun
          | .ok _ | .error (.storage _) => true
          | .error _ => false
        | (.error _, _) => false
      | (.error _, _) => false) = true := by decide +kernel
  generalize hstart : (Draft.start (.ofText "table") 0).perform Host.empty = started at hfinished
  obtain ⟨_ | draft, begun⟩ := started
  · cases hfinished
  simp only at hfinished
  generalize hcomplete : (draft.complete [([1], some [7, 8]), ([1], none)]).perform begun =
    completed at hfinished
  obtain ⟨_ | ⟨answers, summary⟩, after⟩ := completed
  · cases hfinished
  have hunhindered : ∀ e, .error e ∈ answers → ∃ fault, e = .storage fault := by
    intro e hmem
    have h := List.all_eq_true.1 hfinished _ hmem
    cases e with
    | storage fault => exact ⟨fault, rfl⟩
    | _ => cases h
  have hdamage : Damage (accepted [([1], some [7, 8]), ([1], none)])
      ((image [([1], some [7, 8])]).take 24 ++ [9] ++ (image [([1], some [7, 8])]).drop 25) :=
    @Damage.burst _ _ [8] _ _ .data (by decide +kernel) (by decide +kernel) (by decide +kernel)
      (by decide) (by decide) (by decide)
  obtain ⟨other, hsound, hcontent⟩ := @Host.exists_storing ((image [([1], some [7, 8])]).take 24 ++
    [9] ++ (image [([1], some [7, 8])]).drop 25) (by decide +kernel)
  obtain ⟨hfile, hdamaged⟩ :=
    start_damaged Host.sound_empty hstart hcomplete hunhindered
  exact ⟨Host.empty, begun, after, other, draft, answers, summary, _, hstart, hcomplete, hfile,
    by decide +kernel, hcontent, hdamaged _ hdamage other _ hsound hcontent 3⟩

end OrderedStore.Table
