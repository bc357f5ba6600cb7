/-!
# Byte strings

Keys, values and file contents are byte strings. The order on them is the lexicographic order of
lists, byte by byte, with a proper beginning of a string below the string itself.

Main statements:

- `Bytes.ofLittleEndian_littleEndian` and `Bytes.littleEndian_ofLittleEndian`: fixed-width numbers
  are read back as they were written, and every field is the writing of the number read from it.
- `Bytes.successor_le_iff`: `Bytes.successor key` is the least byte string above `key`.
-/

namespace OrderedStore

/-- A byte string, compared lexicographically. -/
abbrev Bytes := List UInt8

namespace Bytes

/-- The `width` low-order bytes of `n`, least significant first. -/
def littleEndian : (width n : Nat) → Bytes
  | 0, _ => []
  | width + 1, n => UInt8.ofNat n :: littleEndian width (n / 256)

/-- The number whose bytes, least significant first, are given. -/
def ofLittleEndian : Bytes → Nat
  | [] => 0
  | b :: rest => b.toNat + 256 * ofLittleEndian rest

def fieldSize : (width : Nat) → Nat
  | 0 => 1
  | width + 1 => 256 * fieldSize width

@[simp]
theorem length_littleEndian (width n : Nat) : (littleEndian width n).length = width := by
  induction width generalizing n with
  | zero => rfl
  | succ width ih => simp [littleEndian, ih]

/-- A field of `width` bytes keeps a number modulo the size of the field. -/
theorem ofLittleEndian_littleEndian (width n : Nat) :
    ofLittleEndian (littleEndian width n) = n % fieldSize width := by
  induction width generalizing n with
  | zero => simp [littleEndian, ofLittleEndian, fieldSize, Nat.mod_one]
  | succ width ih =>
    rw [littleEndian, ofLittleEndian, ih, fieldSize, Nat.mod_mul]
    simp

theorem ofLittleEndian_littleEndian_of_lt {width n : Nat} (h : n < fieldSize width) :
    ofLittleEndian (littleEndian width n) = n := by
  rw [ofLittleEndian_littleEndian, Nat.mod_eq_of_lt h]

/-- Every field is the writing of the number read from it. -/
theorem littleEndian_ofLittleEndian (bytes : Bytes) :
    littleEndian bytes.length (ofLittleEndian bytes) = bytes := by
  induction bytes with
  | nil => rfl
  | cons b rest ih =>
    have hb : b.toNat < 256 := b.toNat_lt
    have hdiv : (b.toNat + 256 * ofLittleEndian rest) / 256 = ofLittleEndian rest := by omega
    have hmod : UInt8.ofNat (b.toNat + 256 * ofLittleEndian rest) = b := by
      apply UInt8.toNat_inj.1
      rw [UInt8.toNat_ofNat']
      omega
    simp [littleEndian, ofLittleEndian, hdiv, hmod, ih]

theorem ofLittleEndian_lt (bytes : Bytes) : ofLittleEndian bytes < fieldSize bytes.length := by
  induction bytes with
  | nil => simp [ofLittleEndian, fieldSize]
  | cons b rest ih =>
    have hb : b.toNat < 256 := b.toNat_lt
    simp only [ofLittleEndian, List.length_cons, fieldSize]
    omega

theorem fieldSize_mono {width wider : Nat} (h : width ≤ wider) :
    fieldSize width ≤ fieldSize wider := by
  induction h with
  | refl => exact Nat.le_refl _
  | step _ ih =>
    simp only [fieldSize]
    omega

/-- The least byte string above `key`. -/
def successor (key : Bytes) : Bytes :=
  key ++ [0]

theorem lt_successor (key : Bytes) : key < successor key := by
  induction key with
  | nil => exact List.nil_lt_cons _ _
  | cons b rest ih => exact List.cons_lt_cons_self.2 ih

/-- Nothing lies between a key and its successor. -/
theorem successor_le_iff {key other : Bytes} : successor key ≤ other ↔ key < other := by
  constructor
  · intro h
    exact Std.lt_of_lt_of_le (lt_successor key) h
  · intro h
    induction key generalizing other with
    | nil =>
      cases other with
      | nil => exact absurd h (List.lt_irrefl [])
      | cons c rest =>
        refine List.not_lt.1 fun hlt => ?_
        rcases List.cons_lt_cons_iff.1 hlt with hc | ⟨_, hr⟩
        · exact absurd hc (UInt8.not_lt.2 (UInt8.zero_le))
        · exact absurd hr (List.not_lt_nil _)
    | cons b rest ih =>
      cases other with
      | nil => exact absurd h (List.not_lt_nil _)
      | cons c rest' =>
        refine List.not_lt.1 fun hlt => ?_
        rcases List.cons_lt_cons_iff.1 h with hbc | ⟨rfl, hr⟩
        · rcases List.cons_lt_cons_iff.1 hlt with hcb | ⟨rfl, _⟩
          · exact absurd (UInt8.lt_trans hbc hcb) (UInt8.lt_irrefl _)
          · exact UInt8.lt_irrefl _ hbc
        · rcases List.cons_lt_cons_iff.1 hlt with hcb | ⟨_, hr'⟩
          · exact UInt8.lt_irrefl _ hcb
          · exact absurd hr' (List.not_lt.2 (ih hr))

end Bytes

end OrderedStore
