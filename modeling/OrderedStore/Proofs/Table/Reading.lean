import OrderedStore.Proofs.Host.Reads
import OrderedStore.Proofs.Table.Image
import OrderedStore.Table.View

/-!
# Reading a table file

A reader that was opened on the image of a table finds every entry where its index says, and walks
the entries in order. Reading leaves the host as it is and does not fail.

Main statements: `Table.ensures_start`, `Table.ensures_find?`, `Table.ensures_scan`.
-/

namespace OrderedStore.Table

variable {conduct : Conduct} {stop : Host → Prop} {err : Error → Host → Prop} {host : Host}
  {table : Table} {place : Location} {bytes more key : Bytes} {offset : Nat} {entry : TableEntry}
  {entries front rest : List TableEntry}

/-! ## One entry -/

/-- The length field of a value. -/
def valueLength (value? : Option Bytes) : Nat :=
  (value?.map List.length).getD tombstoneMark

theorem entryBytes_eq (entry : TableEntry) :
    entryBytes entry = Bytes.littleEndian 4 entry.1.length ++
      (Bytes.littleEndian 4 (valueLength entry.2) ++ (entry.1 ++ entry.2.getD [])) := by
  obtain ⟨key, value?⟩ := entry
  cases value? <;> simp [entryBytes, entryPieces, valueLength]

theorem length_entryBytes (entry : TableEntry) :
    (entryBytes entry).length = 8 + entry.1.length + (entry.2.map List.length).getD 0 := by
  obtain ⟨key, value?⟩ := entry
  cases value? <;> simp [entryBytes_eq] <;> omega

theorem drop_of_drop_eq {offset : Nat} {first second : Bytes}
    (h : bytes.drop offset = first ++ second) : bytes.drop (offset + first.length) = second := by
  rw [← List.drop_drop, h, List.drop_left]

theorem inside_of_drop_eq {offset : Nat} {first second : Bytes}
    (h : bytes.drop offset = first ++ second) (hne : first ≠ []) :
    offset + first.length ≤ bytes.length := by
  have hlength := congrArg List.length h
  rw [List.length_drop, List.length_append] at hlength
  have := List.length_pos_iff.2 hne
  omega

/-- The lengths of an entry fit their fields, and no value is taken for a tombstone. -/
structure Fits (entry : TableEntry) : Prop where
  key : entry.1.length < Bytes.fieldSize 4
  value : ∀ value, entry.2 = some value → value.length < tombstoneMark

theorem WellFormed.fits (h : WellFormed entries) (hmem : entry ∈ entries) : Fits entry :=
  ⟨h.key entry hmem, h.value entry hmem⟩

theorem Fits.valueLength_lt (h : Fits entry) : valueLength entry.2 < Bytes.fieldSize 4 := by
  obtain ⟨key, value?⟩ := entry
  cases value? with
  | none =>
    simp only [valueLength]
    decide
  | some value => exact Nat.lt_trans (h.value value rfl) (by decide)

theorem drop_key (stands : bytes.drop offset = entryBytes entry ++ more) :
    bytes.drop (offset + 8) = entry.1 ++ (entry.2.getD [] ++ more) := by
  have h : bytes.drop offset = (Bytes.littleEndian 4 entry.1.length ++
      Bytes.littleEndian 4 (valueLength entry.2)) ++ (entry.1 ++ (entry.2.getD [] ++ more)) := by
    rw [stands, entryBytes_eq]
    simp
  have := drop_of_drop_eq h
  simpa using this

/-- The lengths at the front of an entry. -/
theorem take_lengths (stands : bytes.drop offset = entryBytes entry ++ more) :
    (bytes.drop offset).take 8 =
      Bytes.littleEndian 4 entry.1.length ++ Bytes.littleEndian 4 (valueLength entry.2) := by
  rw [stands, entryBytes_eq, List.append_assoc, List.append_assoc, ← List.append_assoc]
  exact List.take_left' (by simp)

theorem lengths_inside (stands : bytes.drop offset = entryBytes entry ++ more) :
    offset + 8 ≤ bytes.length := by
  have hlength := eight_le_length_entryBytes entry
  have hinside : offset + (entryBytes entry).length ≤ bytes.length := by
    refine inside_of_drop_eq stands fun hnil => ?_
    simp [hnil] at hlength
  omega

theorem take_value {value : Bytes} (stands : bytes.drop offset = entryBytes entry ++ more)
    (hvalue : entry.2 = some value) :
    (bytes.drop (offset + 8 + entry.1.length)).take value.length = value := by
  have hdrop := drop_of_drop_eq (drop_key stands)
  rw [hvalue, Option.getD_some] at hdrop
  rw [hdrop]
  exact List.take_left' rfl

theorem value_inside {value : Bytes} (stands : bytes.drop offset = entryBytes entry ++ more)
    (hvalue : entry.2 = some value) :
    offset + 8 + entry.1.length + value.length ≤ bytes.length := by
  have hlength := congrArg List.length stands
  rw [List.length_drop, List.length_append, length_entryBytes, hvalue, Option.map_some,
    Option.getD_some] at hlength
  have := eight_le_length_entryBytes entry
  omega

section Entry

variable (sound : host.Sound) (file : host.view.file? place = some (table.handle.id, bytes))
  (fits : Fits entry) (stands : bytes.drop offset = entryBytes entry ++ more)

include sound file fits stands

theorem ensures_readLengths (same : stop host) :
    (table.readLengths offset).Ensures conduct stop
      (fun lengths after => lengths = (entry.1.length, valueLength entry.2) ∧ after = host)
      (fun _ _ => False) host := by
  unfold readLengths
  refine Action.Ensures.bind (Action.ensures_readExactly file sound (lengths_inside stands) same ?_)
  rw [take_lengths stands, List.take_left' (Bytes.length_littleEndian 4 _),
    List.drop_left' (Bytes.length_littleEndian 4 _),
    Bytes.ofLittleEndian_littleEndian_of_lt fits.key,
    Bytes.ofLittleEndian_littleEndian_of_lt fits.valueLength_lt]
  exact Action.ensures_pure ⟨rfl, rfl⟩

theorem ensures_readValue (same : stop host) :
    (table.readValue (offset + 8 + entry.1.length) (valueLength entry.2)).Ensures conduct stop
      (fun value? after => value? = entry.2 ∧ after = host) (fun _ _ => False) host := by
  unfold readValue
  cases hvalue : entry.2 with
  | none =>
    rw [if_pos (show valueLength none = tombstoneMark from rfl)]
    exact Action.ensures_pure ⟨rfl, rfl⟩
  | some value =>
    have hne : valueLength (some value) ≠ tombstoneMark := Nat.ne_of_lt (fits.value value hvalue)
    rw [if_neg hne]
    refine Action.Ensures.bind
      (Action.ensures_readExactly file sound (value_inside stands hvalue) same ?_)
    rw [show valueLength (some value) = value.length from rfl, take_value stands hvalue]
    exact Action.ensures_pure ⟨rfl, rfl⟩

theorem ensures_readEntry (same : stop host) :
    (table.readEntry offset).Ensures conduct stop
      (fun found after => found = (entry, offset + (entryBytes entry).length) ∧ after = host)
      (fun _ _ => False) host := by
  have hkey := drop_key stands
  have hinside : offset + 8 + entry.1.length ≤ bytes.length := by
    have hlength := congrArg List.length stands
    rw [List.length_drop, List.length_append, length_entryBytes] at hlength
    have := eight_le_length_entryBytes entry
    omega
  unfold readEntry
  refine Action.Ensures.bind_of (ensures_readLengths sound file fits stands same) ?_
    fun _ _ h => h
  rintro lengths _ ⟨rfl, rfl⟩
  refine Action.Ensures.bind (Action.ensures_readExactly file sound hinside same ?_)
  rw [hkey, List.take_left]
  refine Action.Ensures.bind_of (ensures_readValue sound file fits stands same) ?_ fun _ _ h => h
  rintro value? _ ⟨rfl, rfl⟩
  refine Action.ensures_pure ⟨?_, rfl⟩
  rw [length_entryBytes]
  simp only [Prod.mk.injEq, true_and]
  omega

end Entry

/-! ## A whole table -/

/-- Where an entry stands in the image of its table. -/
theorem drop_image (front : List TableEntry) (entry : TableEntry) (rest : List TableEntry) :
    ∃ more, (image (front ++ entry :: rest)).drop (headerSize + (dataBytes front).length) =
      entryBytes entry ++ more := by
  refine ⟨dataBytes rest ++
    ((indexPieces (offsetsFrom headerSize (front ++ entry :: rest))).flatten ++
      footerOf (front ++ entry :: rest)), ?_⟩
  rw [image, bodyOf, dataBytes_append, ← length_headerOf (front ++ entry :: rest).length,
    ← List.drop_drop, List.drop_left, List.append_assoc, List.append_assoc, List.drop_left]
  simp only [dataBytes, List.flatMap_cons, List.append_assoc]

/-- An open table on the file of some entries. -/
structure Opened (table : Table) (v : View) (entries : List TableEntry) : Prop where
  wellFormed : WellFormed entries
  file : ∃ place, v.file? place = some (table.handle.id, image entries)
  layout : table.layout = layoutOf entries

theorem take_image_header (entries : List TableEntry) :
    (image entries).take headerSize = headerOf entries.length :=
  List.take_left' (length_headerOf _)

theorem take_image_footer (entries : List TableEntry) :
    ((image entries).drop ((image entries).length - footerSize)).take footerSize =
      footerOf entries := by
  have hlength := length_image entries
  have hsplit : image entries = (headerOf entries.length ++ bodyOf entries) ++
      footerOf entries := by
    rw [image, List.append_assoc]
  have hdrop : (image entries).drop ((image entries).length - footerSize) =
      footerOf entries := by
    conv => enter [1, 2]; rw [hsplit]
    refine List.drop_left' ?_
    rw [List.length_append, length_headerOf]
    omega
  rw [hdrop, List.take_of_length_le (Nat.le_of_eq (length_footerOf _))]

theorem take_image_body (entries : List TableEntry) :
    ((image entries).drop headerSize).take ((image entries).length - headerSize - footerSize) =
      bodyOf entries := by
  have hlength := length_image entries
  have hdrop : (image entries).drop headerSize = bodyOf entries ++ footerOf entries :=
    List.drop_left' (length_headerOf _)
  rw [hdrop]
  exact List.take_left' (by omega)

/-! ## Opening -/

/-- Fed in chunks of any size, the register takes in the bytes that are read. -/
theorem ensures_feedChunks {content : Content} {handle : Handle} {capacity chunks remaining : Nat}
    {register : UInt32} {ok : UInt32 → Host → Prop}
    (opened : host.disk.contentOf handle = .ok content) (enough : remaining ≤ chunks)
    (same : stop host)
    (failed : ¬ (offset + remaining ≤ content.toList.length ∧
      content.toList.length ≤ Disk.sizeLimit) → ∀ e, err e host)
    (done : ok (Checksum.feed register ((content.toList.drop offset).take remaining)) host) :
    (feedChunks handle capacity chunks register offset remaining).Ensures conduct stop ok err
      host := by
  induction chunks generalizing register offset remaining with
  | zero =>
    obtain rfl : remaining = 0 := by omega
    exact done
  | succ chunks ih =>
    unfold feedChunks
    split
    · rename_i hnone
      subst hnone
      exact done
    · rename_i hsome
      simp only
      -- Even with an empty buffer a chunk has a byte, so that what remains gets less.
      generalize hsize : min remaining (max capacity 1) = size
      have hpos : 0 < size := by omega
      have hle : size ≤ remaining := by omega
      refine Action.Ensures.bind (Action.ensures_readExactly_any same ?_ ?_)
      · intro hshort e
        apply failed
        rintro ⟨hinside, hlimit⟩
        have hchunk : offset + size ≤ content.toList.length := by omega
        have hslice := Bytes.slice?_of_inside hchunk hlimit
        rw [hshort content opened] at hslice
        cases hslice
      · intro content' chunk hopened hchunk
        cases opened.symm.trans hopened
        obtain rfl := Bytes.eq_of_slice? hchunk
        apply ih (by omega)
        · intro hbad
          apply failed
          rintro ⟨hinside, hlimit⟩
          exact hbad ⟨by omega, hlimit⟩
        -- What remained is this chunk and what remains behind it.
        · have hsplit : (content.toList.drop offset).take remaining =
              (content.toList.drop offset).take size ++
                (content.toList.drop (offset + size)).take (remaining - size) := by
            rw [← List.drop_drop, ← List.take_add, Nat.add_sub_cancel' hle]
          rwa [← Checksum.feed_append, ← hsplit]

/-- The layout that is read is that of the bytes between header and footer. -/
theorem ensures_readLayout {content : Content} {handle : Handle} {capacity : Nat} {file : String}
    {ends : Ends} (opened : host.disk.contentOf handle = .ok content)
    (behind : headerSize ≤ ends.dataEnd)
    (inside : ends.dataEnd + footerSize ≤ content.toList.length) (same : stop host) :
    (readLayout file handle capacity content.toList.length ends).Ensures conduct stop
      (fun layout after => after = host ∧ Layout.ofBody file ends ((content.toList.drop
        headerSize).take (content.toList.length - headerSize - footerSize)) = .ok layout)
      (fun e after => after = host ∧ (content.toList.length ≤ Disk.sizeLimit →
        ∃ fault, e = .storage fault ∧ Layout.ofBody file ends ((content.toList.drop headerSize).take
          (content.toList.length - headerSize - footerSize)) = .error fault)) host := by
  have hdata : ((content.toList.drop headerSize).take
      (content.toList.length - headerSize - footerSize)).take (ends.dataEnd - headerSize) =
        (content.toList.drop headerSize).take (ends.dataEnd - headerSize) := by
    rw [List.take_take, Nat.min_eq_left (by omega)]
  have hindex : ((content.toList.drop headerSize).take
      (content.toList.length - headerSize - footerSize)).drop (ends.dataEnd - headerSize) =
        (content.toList.drop ends.dataEnd).take
          (content.toList.length - footerSize - ends.dataEnd) := by
    rw [List.drop_take, List.drop_drop, Nat.add_sub_cancel' behind]
    congr 1
    omega
  simp only [Layout.ofBody, hdata, hindex]
  refine Action.Ensures.bind (ensures_feedChunks opened (Nat.le_refl _) same ?_ ?_)
  · intro hbad e
    exact ⟨rfl, fun hlimit => absurd ⟨by omega, hlimit⟩ hbad⟩
  split
  · rename_i hsum
    refine Action.ensures_throw ⟨rfl, fun _ => ⟨_, rfl, if_pos hsum⟩⟩
  · rename_i hsum
    refine Action.Ensures.bind (Action.ensures_readExactly_any same ?_ ?_)
    · intro hshort e
      refine ⟨rfl, fun hlimit => ?_⟩
      have hindexed : ends.dataEnd + (content.toList.length - footerSize - ends.dataEnd) ≤
          content.toList.length := by omega
      have hslice := Bytes.slice?_of_inside hindexed hlimit
      rw [hshort content opened] at hslice
      cases hslice
    · intro content' index hopened hfound
      cases opened.symm.trans hopened
      obtain rfl := Bytes.eq_of_slice? hfound
      cases hread : Layout.ofIndex file ends _ with
      | error fault => exact Action.ensures_throw ⟨rfl, fun _ => ⟨fault, rfl, if_neg hsum⟩⟩
      | ok layout => exact Action.ensures_pure ⟨rfl, if_neg hsum⟩

/-- Where the image of a table can be opened for reading, it is opened as that table. -/
theorem ensures_start_opened {path : Path} {id capacity : Nat} (sound : host.Sound)
    (file : host.view.file? place = some (id, image entries)) (h : WellFormed entries)
    (same : stop host)
    (opening : (Action.openFile path .read).Ensures conduct stop
      (fun handle after => handle = ⟨id⟩ ∧ after = host) err host) :
    (Table.start path capacity).Ensures conduct stop
      (fun table after => table.Opened host.view entries ∧ table.path = path ∧ table.handle = ⟨id⟩ ∧
        after = host) err host := by
  have hlength := length_image entries
  have hsize : (image entries).length < Bytes.fieldSize 8 :=
    Nat.lt_of_le_of_lt (sound.length_le file) (by decide)
  have file' : host.view.file? place = some ((⟨id⟩ : Handle).id, image entries) := file
  unfold Table.start
  refine Action.Ensures.bind_of opening ?_ fun _ _ h => h
  rintro handle opened ⟨rfl, hsame⟩
  rw [hsame]
  refine Action.Ensures.bind (Action.ensures_size file' same ?_)
  have hbig : ¬ (image entries).length < headerSize + footerSize := by omega
  simp only [hbig, if_false]
  refine Action.Ensures.bind (Action.ensures_readExactly file' sound (by omega) same ?_)
  refine Action.Ensures.bind (Action.ensures_readExactly file' sound (by omega) same ?_)
  rw [List.drop_zero, take_image_header, take_image_footer, Ends.read_image path.text hsize]
  obtain ⟨content, hcontent, hbytes⟩ := Action.contentOf_handle file'
  have hbody := Layout.ofBody_image h path.text hsize
  rw [← take_image_body, ← hbytes] at hbody
  have hinside : dataEndOf entries + footerSize ≤ content.toList.length := by
    have hdata := length_dataBytes_le_length_bodyOf entries
    rw [hbytes, hlength, dataEndOf]
    omega
  have hread := @ensures_readLayout conduct stop host content _ capacity path.text
    ⟨entries.length, dataEndOf entries, (Checksum.crc32 (dataBytes entries)).toNat⟩ hcontent
    (Nat.le_add_right ..) hinside same
  rw [hbody] at hread
  rw [← hbytes]
  refine Action.Ensures.bind_of hread ?_ ?_
  · rintro layout _ ⟨rfl, heq⟩
    cases heq
    exact Action.ensures_pure ⟨⟨h, ⟨place, file⟩, rfl⟩, rfl, rfl, rfl⟩
  · rintro e _ ⟨_, hfault⟩
    have hlimit : content.toList.length ≤ Disk.sizeLimit := by
      rw [hbytes]
      exact sound.length_le file
    obtain ⟨_, _, hfault⟩ := hfault hlimit
    cases hfault

/-- The image of a table is opened as that table. -/
theorem ensures_start {path : Path} {id capacity : Nat} (sound : host.Sound)
    (names : host.view.Names path place)
    (file : host.view.file? place = some (id, image entries)) (h : WellFormed entries)
    (same : stop host) :
    (Table.start path capacity).Ensures conduct stop
      (fun table after => table.Opened host.view entries ∧ table.path = path ∧ table.handle = ⟨id⟩ ∧
        after = host)
      (fun _ after => conduct.Excuse ∧ (path.Overlong ∨ ¬ conduct.Steady) ∧ after = host)
      host :=
  ensures_start_opened sound file h same (Action.ensures_openFile_present (Or.inl rfl) names file
    same (fun excuse cause _ => ⟨excuse, cause, rfl⟩) fun _ => ⟨rfl, rfl⟩)

/-! ## Looking a key up -/

/-- The index has no key outside its bounds. -/
theorem find?_offsets_eq_none (h : table.mightContain key = false) :
    table.layout.offsets.find? key = none := by
  rw [KeyMap.find?, KeyMap.lookup_eq_none_iff]
  intro hmem
  have hsorted := table.layout.offsets.ascending
  obtain ⟨pair, hpair, rfl⟩ := List.mem_map.1 hmem
  have hne : table.layout.offsets.toList ≠ [] := List.ne_nil_of_mem hpair
  have hhead := List.head?_eq_some_head hne
  have hlast := List.getLast?_eq_some_getLast hne
  have hlow := KeyMap.le_of_head? hsorted hpair hhead
  have hhigh := KeyMap.le_of_getLast? hsorted hpair hlast
  simp [mightContain, minKey?, maxKey?, KeyMap.minKey?, KeyMap.maxKey?, hhead, hlast, hlow,
    hhigh] at h

theorem lookup_offsetsFrom (key : Bytes) (offset : Nat) (entries : List TableEntry) :
    (KeyMap.lookup key entries = none ∧ KeyMap.lookup key (offsetsFrom offset entries) = none) ∨
    ∃ front value? rest, entries = front ++ (key, value?) :: rest ∧
      KeyMap.lookup key entries = some value? ∧
      KeyMap.lookup key (offsetsFrom offset entries) =
        some (offset + (dataBytes front).length) := by
  induction entries generalizing offset with
  | nil => exact Or.inl ⟨rfl, rfl⟩
  | cons entry rest ih =>
    obtain ⟨k, value?⟩ := entry
    by_cases hk : key = k
    · subst hk
      exact Or.inr ⟨[], value?, rest, rfl, by simp [KeyMap.lookup],
        by simp [KeyMap.lookup, offsetsFrom, dataBytes]⟩
    · simp only [KeyMap.lookup, offsetsFrom, hk, if_false]
      rcases ih (offset + (entryBytes (k, value?)).length) with h | ⟨front, found, behind, rfl, h⟩
      · exact Or.inl h
      · refine Or.inr ⟨(k, value?) :: front, found, behind, rfl, h.1, ?_⟩
        rw [h.2, length_dataBytes_cons, Nat.add_assoc]

/-- A table says about a key what its entries say. -/
theorem ensures_find? (sound : host.Sound) (opened : table.Opened host.view entries)
    (key : Bytes) (same : stop host) :
    (table.find? key).Ensures conduct stop
      (fun found after => found = KeyMap.lookup key entries ∧ after = host)
      (fun _ _ => False) host := by
  obtain ⟨place, file⟩ := opened.file
  have hfind : table.layout.offsets.find? key =
      KeyMap.lookup key (offsetsFrom headerSize entries) := by
    rw [opened.layout, KeyMap.find?, toList_offsets opened.wellFormed]
  unfold Table.find?
  rw [hfind]
  rcases lookup_offsetsFrom key headerSize entries with ⟨hnone, hoffset⟩ |
    ⟨front, value?, rest, hentries, hsome, hoffset⟩
  · rw [hoffset, hnone]
    exact Action.ensures_pure ⟨rfl, rfl⟩
  · rw [hoffset, hsome]
    have hfits : Fits (key, value?) := opened.wellFormed.fits (by simp [hentries])
    obtain ⟨more, stands⟩ := drop_image front (key, value?) rest
    rw [← hentries] at stands
    refine Action.Ensures.bind_of (ensures_readLengths sound file hfits stands same) ?_
      fun _ _ h => h
    rintro lengths _ ⟨rfl, rfl⟩
    refine Action.Ensures.bind_of (ensures_readValue sound file hfits stands same) ?_
      fun _ _ h => h
    rintro found _ ⟨rfl, rfl⟩
    exact Action.ensures_pure ⟨rfl, rfl⟩

/-! ## Walking the entries -/

theorem ensures_itemsBehind (sound : host.Sound) (opened : table.Opened host.view entries)
    (same : stop host) (hentries : entries = front ++ rest) {limit : Nat}
    {read : List (Except Error TableEntry)} :
    (table.itemsBehind read limit (headerSize + (dataBytes front).length)).Ensures conduct stop
      (fun items after => items = read.reverse ++ (rest.take limit).map .ok ∧ after = host)
      host := by
  obtain ⟨place, file⟩ := opened.file
  have hend : table.layout.dataEnd = headerSize + (dataBytes entries).length := by
    rw [opened.layout]
    rfl
  induction limit generalizing front rest read with
  | zero => exact ⟨by simp, rfl⟩
  | succ limit ih =>
    unfold itemsBehind
    rw [hend, hentries, dataBytes_append, List.length_append]
    cases rest with
    | nil =>
      rw [if_pos (by simp [dataBytes])]
      exact ⟨by simp, rfl⟩
    | cons entry rest =>
      have hpos := eight_le_length_entryBytes entry
      have hlength := length_dataBytes_cons entry rest
      rw [if_neg (by omega)]
      have hfits : Fits entry := opened.wellFormed.fits (by simp [hentries])
      obtain ⟨more, stands⟩ := drop_image front entry rest
      rw [← hentries] at stands
      refine Action.Ensures.script_bind ((ensures_readEntry sound file hfits stands same).mono
        (fun _ h => h) ?_ fun _ _ h => h.elim)
      rintro found _ ⟨rfl, rfl⟩
      have hnext : headerSize + (dataBytes front).length + (entryBytes entry).length =
          headerSize + (dataBytes (front ++ [entry])).length := by
        rw [dataBytes_append, List.length_append, length_dataBytes_cons]
        simp [dataBytes]
        omega
      simp only [hnext]
      have hnext' : entries = (front ++ [entry]) ++ rest := by
        rw [hentries]
        simp
      refine (ih hnext').mono (fun _ h => h) ?_
      rintro items _ ⟨rfl, rfl⟩
      exact ⟨by simp, rfl⟩

theorem dropWhile_offsetsFrom (start : Bytes) (offset : Nat) (entries : List TableEntry) :
    (offsetsFrom offset entries).dropWhile (·.1 < start) =
      offsetsFrom (offset + (dataBytes (entries.takeWhile (·.1 < start))).length)
        (entries.dropWhile (·.1 < start)) := by
  induction entries generalizing offset with
  | nil => rfl
  | cons entry rest ih =>
    by_cases hlt : entry.1 < start
    · rw [offsetsFrom, List.dropWhile_cons_of_pos (by simpa using hlt), ih,
        List.takeWhile_cons_of_pos (by simpa using hlt),
        List.dropWhile_cons_of_pos (by simpa using hlt), length_dataBytes_cons, Nat.add_assoc]
    · rw [offsetsFrom, List.dropWhile_cons_of_neg (by simpa using hlt),
        List.takeWhile_cons_of_neg (by simpa using hlt),
        List.dropWhile_cons_of_neg (by simpa using hlt)]
      rfl

theorem entriesOf_map_ok (entries : List TableEntry) :
    entriesOf (entries.map .ok) = .ok entries := by
  induction entries with
  | nil => rfl
  | cons entry rest ih =>
    unfold entriesOf at ih ⊢
    rw [List.map_cons, List.mapM_cons, ih]
    rfl

/-- A scan of a table gives its first entries from a key on. -/
theorem ensures_scan (sound : host.Sound) (opened : table.Opened host.view entries)
    (start : Bytes) (limit : Nat) (same : stop host) :
    (table.scan start limit).Ensures conduct stop
      (fun found after => found = (entries.dropWhile (·.1 < start)).take limit ∧ after = host)
      (fun _ _ => False) host := by
  obtain ⟨place, file⟩ := opened.file
  have hfrom : table.layout.offsets.entriesFrom start =
      offsetsFrom (headerSize + (dataBytes (entries.takeWhile (·.1 < start))).length)
        (entries.dropWhile (·.1 < start)) := by
    rw [opened.layout, KeyMap.entriesFrom, toList_offsets opened.wellFormed,
      dropWhile_offsetsFrom]
  have hsplit : entries = entries.takeWhile (·.1 < start) ++ entries.dropWhile (·.1 < start) :=
    List.takeWhile_append_dropWhile.symm
  unfold Table.scan
  rw [hfrom]
  cases hrest : entries.dropWhile (·.1 < start) with
  | nil => exact Action.ensures_pure ⟨List.take_nil.symm, rfl⟩
  | cons entry rest =>
    rw [hrest] at hsplit
    have hinside : headerSize + (dataBytes (entries.takeWhile (·.1 < start))).length ≤
        (image entries).length := by
      have hdata : (dataBytes (entries.takeWhile (·.1 < start))).length ≤
          (dataBytes entries).length := by
        conv => enter [2, 1]; rw [hsplit]
        rw [dataBytes_append, List.length_append]
        omega
      rw [length_image, bodyOf, List.length_append]
      omega
    refine Action.Ensures.bind (Action.ensures_read file sound hinside same ?_)
    refine Action.Ensures.bind_of (Action.ensures_ofScript
      (ensures_itemsBehind sound opened same hsplit)) ?_ fun _ _ h => h
    rintro items _ ⟨rfl, rfl⟩
    rw [List.reverse_nil, List.nil_append, entriesOf_map_ok]
    exact Action.ensures_pure ⟨rfl, rfl⟩

end OrderedStore.Table
