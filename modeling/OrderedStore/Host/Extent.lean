import OrderedStore.Bytes

/-!
# Extents

An extent is a stretch of a file: bytes in an array, so that what stands at some offset is reached
at once, and behind them a hole, zero bytes that nobody wrote and that take no room. The laws say
what the operations do to the extent as a byte string.

Main statements: `Extent.sliceBefore_eq`, `Extent.toList_first`, `Extent.toList_after`,
`Extent.toList_join?`.
-/

namespace OrderedStore

/-- A stretch of a file. -/
structure Extent where
  bytes : Array UInt8
  /-- The number of zero bytes behind them. -/
  hole : Nat := 0

namespace Extent

def toList (extent : Extent) : Bytes :=
  extent.bytes.toList ++ List.replicate extent.hole 0

def size (extent : Extent) : Nat :=
  extent.bytes.size + extent.hole

def first (extent : Extent) (count : Nat) : Extent where
  bytes := extent.bytes.extract 0 count
  hole := min (count - extent.bytes.size) extent.hole

def after (extent : Extent) (count : Nat) : Extent where
  bytes := extent.bytes.extract count
  hole := extent.hole - (count - extent.bytes.size)

/-- As many zero bytes as told, and `rest` behind them. -/
def zerosBefore : (count : Nat) → (rest : Bytes) → Bytes
  | 0, rest => rest
  | count + 1, rest => zerosBefore count (0 :: rest)

/-- Up to `count` bytes from `offset` on, and `rest` behind them. -/
def sliceBefore (extent : Extent) (offset count : Nat) (rest : Bytes) : Bytes :=
  let zeros := min (offset + count) extent.size - max offset extent.bytes.size
  extent.bytes.foldr List.cons (zerosBefore zeros rest) (offset + count) offset

/-- Two extents as one, if the bytes of the second directly follow those of the first or there are
none. -/
def join? (front back : Extent) : Option Extent :=
  if front.hole = 0 then some ⟨front.bytes ++ back.bytes, back.hole⟩
  else if back.bytes.isEmpty then some ⟨front.bytes, front.hole + back.hole⟩
  else none

@[simp]
theorem length_toList (extent : Extent) : extent.toList.length = extent.size := by
  simp [toList, size]

theorem toList_first (extent : Extent) (count : Nat) :
    (extent.first count).toList = extent.toList.take count := by
  simp [toList, first, Array.toList_extract, List.extract_eq_take_drop, List.take_append]

theorem toList_after (extent : Extent) (count : Nat) :
    (extent.after count).toList = extent.toList.drop count := by
  simp only [toList, after, Array.toList_extract, List.extract_eq_take_drop, List.drop_append,
    List.drop_replicate, Array.length_toList]
  rw [List.take_of_length_le (by simp)]

theorem zerosBefore_eq (count : Nat) (rest : Bytes) :
    zerosBefore count rest = List.replicate count 0 ++ rest := by
  induction count generalizing rest with
  | zero => rfl
  | succ count ih => rw [zerosBefore, ih, List.replicate_succ', List.append_assoc]; rfl

theorem sliceBefore_eq (extent : Extent) (offset count : Nat) (rest : Bytes) :
    extent.sliceBefore offset count rest = (extent.toList.drop offset).take count ++ rest := by
  have hzeros : min (offset + count) extent.size - max offset extent.bytes.size =
      min (count - (extent.bytes.size - offset)) (extent.hole - (offset - extent.bytes.size)) := by
    unfold size
    omega
  unfold sliceBefore
  rw [Array.foldr_eq_foldr_extract, ← Array.foldr_toList, List.foldr_cons_eq_append, hzeros,
    zerosBefore_eq]
  simp [toList, Array.toList_extract, List.extract_eq_take_drop, List.drop_append,
    List.take_append]

theorem toList_join? {front back joined : Extent} (h : front.join? back = some joined) :
    joined.toList = front.toList ++ back.toList := by
  unfold join? at h
  split at h
  · rename_i hole
    obtain rfl := Option.some.inj h
    simp [toList, hole]
  · split at h
    · rename_i empty
      obtain rfl := Option.some.inj h
      have hback : back.bytes = #[] := by simpa using empty
      simp [toList, hback]
    · simp at h

end Extent

end OrderedStore
