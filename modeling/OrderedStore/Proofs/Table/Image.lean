import OrderedStore.Proofs.KeyMap
import OrderedStore.Proofs.Log.Codec
import OrderedStore.Table.Layout

/-!
# The bytes of a table

The image of a table is what the file of its entries holds. The checks of a reader accept it, and
the index that they read says where every entry stands.

Main statements: `Ends.read_image` and `Layout.ofBody_image`.
-/

namespace OrderedStore.Table

/-! ## Writing -/

/-- The bytes of one entry. -/
def entryBytes (entry : TableEntry) : Bytes :=
  (entryPieces entry.1 entry.2).flatten

/-- The bytes of entries one behind the other. -/
def dataBytes (entries : List TableEntry) : Bytes :=
  entries.flatMap entryBytes

/-- Where entries stand if the first one begins at `offset`. -/
def offsetsFrom (offset : Nat) : List TableEntry → List (Bytes × Nat)
  | [] => []
  | entry :: rest => (entry.1, offset) :: offsetsFrom (offset + (entryBytes entry).length) rest

/-- Where the data of a table ends. -/
def dataEndOf (entries : List TableEntry) : Nat :=
  headerSize + (dataBytes entries).length

/-- What stands between header and footer of a table. -/
def bodyOf (entries : List TableEntry) : Bytes :=
  dataBytes entries ++ (indexPieces (offsetsFrom headerSize entries)).flatten

/-- The bytes of the header. -/
def headerOf (count : Nat) : Bytes :=
  (headerPieces count).flatten

/-- The bytes of the footer. -/
def footerOf (entries : List TableEntry) : Bytes :=
  (footerPieces (dataEndOf entries) (Checksum.crc32 (dataBytes entries))).flatten

/-- The file of a table. -/
def image (entries : List TableEntry) : Bytes :=
  headerOf entries.length ++ (bodyOf entries ++ footerOf entries)

/-- Entries in order whose lengths fit their fields. -/
structure WellFormed (entries : List TableEntry) : Prop where
  ascending : entries.Pairwise (·.1 < ·.1)
  key : ∀ entry ∈ entries, entry.1.length < Bytes.fieldSize 4
  value : ∀ entry ∈ entries, ∀ value, entry.2 = some value → value.length < tombstoneMark

namespace WellFormed

variable {entry : TableEntry} {entries front rest : List TableEntry}

theorem nil : WellFormed [] :=
  ⟨List.Pairwise.nil, by simp, by simp⟩

theorem tail (h : WellFormed (entry :: rest)) : WellFormed rest where
  ascending := (List.pairwise_cons.1 h.ascending).2
  key other hmem := h.key other (List.mem_cons_of_mem _ hmem)
  value other hmem := h.value other (List.mem_cons_of_mem _ hmem)

theorem take (h : WellFormed (front ++ rest)) : WellFormed front where
  ascending := (List.pairwise_append.1 h.ascending).1
  key other hmem := h.key other (List.mem_append_left _ hmem)
  value other hmem := h.value other (List.mem_append_left _ hmem)

end WellFormed

theorem length_headerOf (count : Nat) : (headerOf count).length = headerSize := by
  simp [headerOf, headerPieces, magic, headerSize]

theorem length_footerOf (entries : List TableEntry) : (footerOf entries).length = footerSize := by
  simp [footerOf, footerPieces, footerSize]

theorem length_image (entries : List TableEntry) :
    (image entries).length = headerSize + (bodyOf entries).length + footerSize := by
  simp only [image, List.length_append, length_headerOf, length_footerOf]
  omega

theorem length_dataBytes_le_length_bodyOf (entries : List TableEntry) :
    (dataBytes entries).length ≤ (bodyOf entries).length := by
  simp [bodyOf]

theorem dataBytes_append (front rest : List TableEntry) :
    dataBytes (front ++ rest) = dataBytes front ++ dataBytes rest :=
  List.flatMap_append

theorem length_dataBytes_cons (entry : TableEntry) (rest : List TableEntry) :
    (dataBytes (entry :: rest)).length = (entryBytes entry).length + (dataBytes rest).length := by
  simp [dataBytes]

theorem eight_le_length_entryBytes (entry : TableEntry) : 8 ≤ (entryBytes entry).length := by
  simp only [entryBytes, entryPieces, List.flatten_append, List.length_append]
  simp
  omega

theorem length_le_length_dataBytes (entries : List TableEntry) :
    entries.length ≤ (dataBytes entries).length := by
  induction entries with
  | nil => exact Nat.le_refl _
  | cons entry rest ih =>
    have hpos := eight_le_length_entryBytes entry
    rw [length_dataBytes_cons, List.length_cons]
    omega

theorem offsetsFrom_append (offset : Nat) (front rest : List TableEntry) :
    offsetsFrom offset (front ++ rest) =
      offsetsFrom offset front ++ offsetsFrom (offset + (dataBytes front).length) rest := by
  induction front generalizing offset with
  | nil => rfl
  | cons entry front ih =>
    rw [List.cons_append, offsetsFrom, ih, offsetsFrom, length_dataBytes_cons, Nat.add_assoc]
    rfl

theorem map_fst_offsetsFrom (offset : Nat) (entries : List TableEntry) :
    (offsetsFrom offset entries).map (·.1) = entries.map (·.1) := by
  induction entries generalizing offset with
  | nil => rfl
  | cons entry rest ih => simp [offsetsFrom, ih]

theorem length_offsetsFrom (offset : Nat) (entries : List TableEntry) :
    (offsetsFrom offset entries).length = entries.length := by
  have := congrArg List.length (map_fst_offsetsFrom offset entries)
  simpa using this

theorem offset_lt_of_mem {offset : Nat} {entries : List TableEntry} {pair : Bytes × Nat}
    (h : pair ∈ offsetsFrom offset entries) :
    pair.2 < offset + (dataBytes entries).length := by
  induction entries generalizing offset with
  | nil => simp [offsetsFrom] at h
  | cons entry rest ih =>
    have hpos := eight_le_length_entryBytes entry
    have hlength := length_dataBytes_cons entry rest
    rcases List.mem_cons.1 h with rfl | hrest
    · simp only
      omega
    · have := ih hrest
      omega

/-! ## The index -/

theorem indexEntries_append {key : Bytes} {offset : Nat} (hkey : key.length < Bytes.fieldSize 4)
    (hoffset : offset < Bytes.fieldSize 8) (rest : Bytes) :
    Layout.indexEntries ((indexPieces [(key, offset)]).flatten ++ rest) =
      (Layout.indexEntries rest).map ((key, offset) :: ·) := by
  have hpieces : (indexPieces [(key, offset)]).flatten ++ rest =
      Bytes.littleEndian 4 key.length ++ (Bytes.littleEndian 8 offset ++ (key ++ rest)) := by
    simp [indexPieces]
  have htake4 : ((indexPieces [(key, offset)]).flatten ++ rest).take 4 =
      Bytes.littleEndian 4 key.length := by
    rw [hpieces]
    exact List.take_left' (Bytes.length_littleEndian _ _)
  have hdrop4 : ((indexPieces [(key, offset)]).flatten ++ rest).drop 4 =
      Bytes.littleEndian 8 offset ++ (key ++ rest) := by
    rw [hpieces]
    exact List.drop_left' (Bytes.length_littleEndian _ _)
  have hdrop12 : ((indexPieces [(key, offset)]).flatten ++ rest).drop 12 = key ++ rest := by
    have h : ((indexPieces [(key, offset)]).flatten ++ rest).drop 12 =
        (((indexPieces [(key, offset)]).flatten ++ rest).drop 4).drop 8 := by
      rw [List.drop_drop]
    rw [h, hdrop4]
    exact List.drop_left' (Bytes.length_littleEndian _ _)
  have hshort : ¬ (((indexPieces [(key, offset)]).flatten ++ rest).take 12).length < 12 := by
    rw [hpieces]
    simp
    omega
  rw [Layout.indexEntries, dif_neg hshort]
  simp only [htake4, hdrop4, hdrop12, List.take_left' (Bytes.length_littleEndian 8 offset),
    Bytes.ofLittleEndian_littleEndian_of_lt hkey, Bytes.ofLittleEndian_littleEndian_of_lt hoffset,
    List.take_left, List.drop_left, Nat.lt_irrefl, if_false]

theorem indexEntries_indexPieces {offsets : List (Bytes × Nat)}
    (hkey : ∀ pair ∈ offsets, pair.1.length < Bytes.fieldSize 4)
    (hoffset : ∀ pair ∈ offsets, pair.2 < Bytes.fieldSize 8) :
    Layout.indexEntries (indexPieces offsets).flatten = some offsets := by
  induction offsets with
  | nil =>
    rw [Layout.indexEntries]
    rfl
  | cons pair rest ih =>
    have hpieces : (indexPieces (pair :: rest)).flatten =
        (indexPieces [(pair.1, pair.2)]).flatten ++ (indexPieces rest).flatten := by
      simp [indexPieces]
    rw [hpieces, indexEntries_append (hkey pair (by simp)) (hoffset pair (by simp)),
      ih (fun other hmem => hkey other (by simp [hmem]))
        (fun other hmem => hoffset other (by simp [hmem]))]
    rfl

/-! ## What a reader keeps -/

theorem ascending_offsetsFrom {entries : List TableEntry} (h : entries.Pairwise (·.1 < ·.1))
    (offset : Nat) : (offsetsFrom offset entries).Pairwise (·.1 < ·.1) := by
  rw [← List.pairwise_map (f := fun pair : Bytes × Nat => pair.1) (R := (· < ·)),
    map_fst_offsetsFrom, List.pairwise_map]
  exact h

/-- What an open table keeps of the file of its entries. -/
def layoutOf (entries : List TableEntry) : Layout where
  count := entries.length
  dataEnd := dataEndOf entries
  offsets := KeyMap.empty.insertAll (offsetsFrom headerSize entries)

theorem toList_offsets {entries : List TableEntry} (h : WellFormed entries) :
    (layoutOf entries).offsets.toList = offsetsFrom headerSize entries :=
  KeyMap.toList_insertAll_empty (ascending_offsetsFrom h.ascending _)

/-- Header and footer of a table that is not too large say what they were written for. -/
theorem Ends.read_image {entries : List TableEntry} (file : String)
    (size : (image entries).length < Bytes.fieldSize 8) :
    Ends.read file (image entries).length (headerOf entries.length) (footerOf entries) =
      .ok ⟨entries.length, dataEndOf entries, (Checksum.crc32 (dataBytes entries)).toNat⟩ := by
  have hlength := length_image entries
  have hbody := length_dataBytes_le_length_bodyOf entries
  have hcount : entries.length < Bytes.fieldSize 8 := by
    have := length_le_length_dataBytes entries
    omega
  have hend : dataEndOf entries < Bytes.fieldSize 8 := by
    simp only [dataEndOf]
    omega
  have hsum : (Checksum.crc32 (dataBytes entries)).toNat < Bytes.fieldSize 4 :=
    (Checksum.crc32 (dataBytes entries)).toNat_lt
  have hmagic : (headerOf entries.length).take 4 = magic := by
    simp [headerOf, headerPieces, magic]
  have hversion : Bytes.ofLittleEndian (((headerOf entries.length).drop 4).take 2) = version := by
    simp [headerOf, headerPieces, magic]
    decide
  have hcount' : Bytes.ofLittleEndian (((headerOf entries.length).drop countOffset).take 8) =
      entries.length := by
    have htake : (Bytes.littleEndian 8 entries.length).take 8 =
        Bytes.littleEndian 8 entries.length := List.take_of_length_le (by simp)
    simp [headerOf, headerPieces, magic, countOffset, htake,
      Bytes.ofLittleEndian_littleEndian_of_lt hcount]
  have hfooter : Bytes.ofLittleEndian ((footerOf entries).take 8) = dataEndOf entries := by
    simp [footerOf, footerPieces, Bytes.ofLittleEndian_littleEndian_of_lt hend]
  have hchecksum : Bytes.ofLittleEndian (((footerOf entries).drop 8).take 4) =
      (Checksum.crc32 (dataBytes entries)).toNat := by
    simp [footerOf, footerPieces, Bytes.ofLittleEndian_littleEndian_of_lt hsum]
  -- The index begins behind the header and before the footer, as the reader demands.
  have hinside : ¬ (dataEndOf entries < headerSize ∨
      (image entries).length - footerSize < dataEndOf entries) := by
    simp only [dataEndOf]
    omega
  simp only [Ends.read, hmagic, hversion, hfooter, hcount', hchecksum, hinside]
  simp

/-- What a reader makes of the bytes between header and footer: the data is checked, and the index
behind it is read. -/
def Layout.ofBody (file : String) (ends : Ends) (body : Bytes) : Except StorageFault Layout :=
  let dataSize := ends.dataEnd - headerSize
  if (Checksum.crc32 (body.take dataSize)).toNat ≠ ends.checksum then .error (.dataChecksum file)
  else ofIndex file ends (body.drop dataSize)

/-- The checks of a reader accept the data of a table, and its index is read. -/
theorem Layout.ofBody_image {entries : List TableEntry} (h : WellFormed entries) (file : String)
    (size : (image entries).length < Bytes.fieldSize 8) :
    Layout.ofBody file
      ⟨entries.length, dataEndOf entries, (Checksum.crc32 (dataBytes entries)).toNat⟩
      (bodyOf entries) = .ok (layoutOf entries) := by
  have hlength := length_image entries
  have hbody := length_dataBytes_le_length_bodyOf entries
  have hsize : dataEndOf entries - headerSize = (dataBytes entries).length := by
    simp [dataEndOf]
  have htake : (bodyOf entries).take (dataBytes entries).length = dataBytes entries :=
    List.take_left
  have hdrop : (bodyOf entries).drop (dataBytes entries).length =
      (indexPieces (offsetsFrom headerSize entries)).flatten := List.drop_left
  have hindex : Layout.indexEntries (indexPieces (offsetsFrom headerSize entries)).flatten =
      some (offsetsFrom headerSize entries) := by
    -- The fields of the index hold the keys and the places of all entries.
    refine indexEntries_indexPieces ?_ ?_
    · intro pair hmem
      have hkey : pair.1 ∈ entries.map (·.1) := by
        rw [← map_fst_offsetsFrom headerSize]
        exact List.mem_map.2 ⟨pair, hmem, rfl⟩
      obtain ⟨entry, hentry, heq⟩ := List.mem_map.1 hkey
      rw [← heq]
      exact h.key entry hentry
    · intro pair hmem
      have := offset_lt_of_mem hmem
      omega
  simp only [Layout.ofBody, Layout.ofIndex, hsize, htake, hdrop, hindex]
  simp [layoutOf]

end OrderedStore.Table
