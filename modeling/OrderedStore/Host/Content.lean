import OrderedStore.Host.Extent

/-!
# File contents

The content of a file is a list of extents. Extents that can be one are joined, so a file that is
written without gaps is a single array. The laws say what the operations do to the content as a byte
string.

Main statements: `Content.slice_eq`, `Content.toList_resized`, `Content.toList_overwritten`,
`Content.toList_append`.
-/

namespace OrderedStore

/-- The content of a file. -/
structure Content where
  /-- The stretches of the file in order. -/
  extents : List Extent := []

namespace Content

def empty : Content :=
  { }

def ofArray (bytes : Array UInt8) : Content :=
  ⟨[⟨bytes, 0⟩]⟩

def zeros (size : Nat) : Content :=
  ⟨[⟨#[], size⟩]⟩

def toList (content : Content) : Bytes :=
  content.extents.flatMap Extent.toList

def sizeOf : List Extent → Nat
  | [] => 0
  | extent :: rest => extent.size + sizeOf rest

def size (content : Content) : Nat :=
  sizeOf content.extents

/-- Extents behind one another, joined where they meet. -/
def join : List Extent → List Extent → List Extent
  | [], back => back
  | [last], next :: back =>
    match last.join? next with
    | some extent => extent :: back
    | none => last :: next :: back
  | extent :: front, back => extent :: join front back

def first : List Extent → Nat → List Extent
  | [], _ => []
  | extent :: rest, count =>
    if count ≤ extent.size then [extent.first count]
    else extent :: first rest (count - extent.size)

/-- What stands in extents behind the first `count` bytes. -/
def after : List Extent → Nat → List Extent
  | [], _ => []
  | extent :: rest, count =>
    if count < extent.size then extent.after count :: rest
    else after rest (count - extent.size)

/-- Up to `count` bytes of extents from `offset` on. -/
def sliceOf : List Extent → (offset count : Nat) → Bytes
  | [], _, _ => []
  | extent :: rest, offset, count =>
    if offset < extent.size then
      extent.sliceBefore offset count (sliceOf rest 0 (count - (extent.size - offset)))
    else sliceOf rest (offset - extent.size) count

protected def append (front back : Content) : Content :=
  ⟨join front.extents back.extents⟩

instance : Append Content :=
  ⟨Content.append⟩

def take (content : Content) (count : Nat) : Content :=
  ⟨first content.extents count⟩

def drop (content : Content) (count : Nat) : Content :=
  ⟨after content.extents count⟩

/-- Up to `count` bytes from `offset` on. -/
def slice (content : Content) (offset count : Nat) : Bytes :=
  sliceOf content.extents offset count

/-- A content cut to `size` bytes, or extended to them with zero bytes. -/
def resized (content : Content) (size : Nat) : Content :=
  if content.size ≤ size then content ++ zeros (size - content.size) else content.take size

/-- A content with `data` in place of what stood from `offset` on. Writing nothing changes nothing,
even behind the end. -/
def overwritten (content : Content) (offset : Nat) (data : Bytes) : Content :=
  if data.isEmpty then content
  else content.resized offset ++ ofArray data.toArray ++ content.drop (offset + data.length)

@[simp]
theorem toList_empty : empty.toList = [] :=
  rfl

@[simp]
theorem toList_ofArray (bytes : Array UInt8) : (ofArray bytes).toList = bytes.toList := by
  simp [toList, ofArray, Extent.toList]

@[simp]
theorem toList_zeros (size : Nat) : (zeros size).toList = List.replicate size 0 := by
  simp [toList, zeros, Extent.toList]

theorem length_flatMap_toList (extents : List Extent) :
    (extents.flatMap Extent.toList).length = sizeOf extents := by
  induction extents with
  | nil => rfl
  | cons extent rest ih => simp [sizeOf, ih]

@[simp]
theorem length_toList (content : Content) : content.toList.length = content.size :=
  length_flatMap_toList content.extents

theorem flatMap_join (front back : List Extent) :
    (join front back).flatMap Extent.toList =
      front.flatMap Extent.toList ++ back.flatMap Extent.toList := by
  fun_induction join front back with
  | case1 => rfl
  | case2 last next back extent h => simp [Extent.toList_join? h]
  | case3 => simp
  | case4 extent front back _ ih => simp [ih]

@[simp]
theorem toList_append (front back : Content) :
    (front ++ back).toList = front.toList ++ back.toList :=
  flatMap_join front.extents back.extents

theorem flatMap_first (extents : List Extent) (count : Nat) :
    (first extents count).flatMap Extent.toList =
      (extents.flatMap Extent.toList).take count := by
  fun_induction first extents count with
  | case1 => simp
  | case2 extent rest count h =>
    simp [Extent.toList_first, List.take_append, Nat.sub_eq_zero_of_le h]
  | case3 extent rest count h ih =>
    rw [List.flatMap_cons, ih, List.flatMap_cons, List.take_append, Extent.length_toList,
      List.take_of_length_le (l := extent.toList) (by simp; omega)]

@[simp]
theorem toList_take (content : Content) (count : Nat) :
    (content.take count).toList = content.toList.take count :=
  flatMap_first content.extents count

theorem flatMap_after (extents : List Extent) (count : Nat) :
    (after extents count).flatMap Extent.toList =
      (extents.flatMap Extent.toList).drop count := by
  fun_induction after extents count with
  | case1 => simp
  | case2 extent rest count h =>
    simp [Extent.toList_after, List.drop_append, Nat.sub_eq_zero_of_le (Nat.le_of_lt h)]
  | case3 extent rest count h ih =>
    rw [ih, List.flatMap_cons, List.drop_append, Extent.length_toList,
      List.drop_of_length_le (l := extent.toList) (by simp; omega), List.nil_append]

@[simp]
theorem toList_drop (content : Content) (count : Nat) :
    (content.drop count).toList = content.toList.drop count :=
  flatMap_after content.extents count

theorem sliceOf_eq (extents : List Extent) (offset count : Nat) :
    sliceOf extents offset count =
      ((extents.flatMap Extent.toList).drop offset).take count := by
  fun_induction sliceOf extents offset count with
  | case1 => simp
  | case2 extent rest offset count h ih =>
    rw [Extent.sliceBefore_eq, ih, List.flatMap_cons, List.drop_append, List.take_append]
    simp [Nat.sub_eq_zero_of_le (Nat.le_of_lt h)]
  | case3 extent rest offset count h ih =>
    rw [ih, List.flatMap_cons, List.drop_append, Extent.length_toList,
      List.drop_of_length_le (l := extent.toList) (by simp; omega), List.nil_append]

theorem slice_eq (content : Content) (offset count : Nat) :
    content.slice offset count = (content.toList.drop offset).take count :=
  sliceOf_eq content.extents offset count

theorem toList_resized (content : Content) (size : Nat) :
    (content.resized size).toList =
      content.toList.take size ++ List.replicate (size - content.size) 0 := by
  unfold resized
  split
  · rename_i h
    rw [List.take_of_length_le (by simpa using h)]
    simp
  · rename_i h
    rw [Nat.sub_eq_zero_of_le (by omega)]
    simp

theorem toList_overwritten (content : Content) (offset : Nat) {data : Bytes} (h : data ≠ []) :
    (content.overwritten offset data).toList =
      (content.resized offset).toList ++ data ++ content.toList.drop (offset + data.length) := by
  simp [overwritten, h]

theorem overwritten_nil (content : Content) (offset : Nat) :
    content.overwritten offset [] = content :=
  rfl

end Content

end OrderedStore
