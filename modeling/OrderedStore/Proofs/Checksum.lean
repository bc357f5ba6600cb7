import Mathlib.Data.Nat.Bitwise
import OrderedStore.Checksum

/-!
# Bursts in a byte string

Two byte strings that differ in at most four bytes in a row have different checksums. The register
takes in differences linearly, so only the difference of two registers matters. If it is to vanish
with the last byte, then it was shifted out at the low end of the register all the way, and is a
multiple of 256 before every byte; but a burst begins with a difference of two bytes.

Main statements: `Checksum.feed_injective`, `Checksum.crc32_ne_of_burst`.
-/

namespace OrderedStore.Checksum

variable {register register' : UInt32} {byte byte' : UInt8} {bytes front old new back : Bytes}

/-! ## One bit -/

theorem lowBit_iff (register : UInt32) : register &&& 1 = 1 ↔ register.toNat % 2 = 1 := by
  rw [← UInt32.toNat_inj, UInt32.toNat_and]
  exact (Nat.and_one_is_mod register.toNat).congr_left

theorem toNat_shifted (register : UInt32) : (register >>> 1).toNat = register.toNat / 2 := by
  rw [UInt32.toNat_shiftRight]
  exact Nat.shiftRight_eq_div_pow register.toNat 1

/-- The register takes in bits linearly. -/
theorem bitStep_xor (register register' : UInt32) :
    bitStep (register ^^^ register') = bitStep register ^^^ bitStep register' := by
  have hparity : (register ^^^ register').toNat % 2 = (register.toNat + register'.toNat) % 2 := by
    rw [UInt32.toNat_xor]
    exact Nat.xor_mod_two_eq
  simp only [bitStep, lowBit_iff, hparity, UInt32.shiftRight_xor]
  generalize (0xEDB88320 : UInt32) = polynomial
  -- The polynomial comes in once, twice or not at all.
  rcases Nat.mod_two_eq_zero_or_one register.toNat with hfirst | hfirst <;>
    rcases Nat.mod_two_eq_zero_or_one register'.toNat with hsecond | hsecond
  · rw [if_neg (by omega), if_neg (by omega), if_neg (by omega)]
  · rw [if_pos (by omega), if_neg (by omega), if_pos hsecond]
    exact UInt32.xor_assoc ..
  · rw [if_pos (by omega), if_pos hfirst, if_neg (by omega)]
    calc
      register >>> 1 ^^^ register' >>> 1 ^^^ polynomial
          = register >>> 1 ^^^ (polynomial ^^^ register' >>> 1) := by
              rw [UInt32.xor_assoc, UInt32.xor_comm (register' >>> 1)]
      _ = register >>> 1 ^^^ polynomial ^^^ register' >>> 1 := (UInt32.xor_assoc ..).symm
  · rw [if_neg (by omega), if_pos hfirst, if_pos hsecond]
    calc
      register >>> 1 ^^^ register' >>> 1
          = register >>> 1 ^^^ (polynomial ^^^ (polynomial ^^^ register' >>> 1)) := by
              rw [← UInt32.xor_assoc polynomial, UInt32.xor_self, UInt32.zero_xor]
      _ = register >>> 1 ^^^ polynomial ^^^ (register' >>> 1 ^^^ polynomial) := by
              rw [UInt32.xor_comm (register' >>> 1), UInt32.xor_assoc]

/-- A register without its highest bit is the one before shifted down: the polynomial would have set
this bit. -/
theorem toNat_of_bitStep (h : (bitStep register).toNat < 2 ^ 31) :
    register.toNat = 2 * (bitStep register).toNat := by
  unfold bitStep at h ⊢
  split at h
  · exfalso
    rw [UInt32.toNat_xor, toNat_shifted] at h
    have hclear : (register.toNat / 2).testBit 31 = false := by
      apply Nat.testBit_lt_two_pow
      have := register.toNat_lt
      omega
    have hset : (register.toNat / 2 ^^^ (0xEDB88320 : UInt32).toNat).testBit 31 = true := by
      rw [Nat.testBit_xor, hclear]
      decide
    rw [Nat.testBit_lt_two_pow h] at hset
    cases hset
  · rename_i hodd
    have heven := hodd
    rw [lowBit_iff] at heven
    rw [if_neg hodd, toNat_shifted]
    omega

/-! ## One byte -/

theorem bitSteps_xor (count : Nat) (register register' : UInt32) :
    bitStep^[count] (register ^^^ register') =
      bitStep^[count] register ^^^ bitStep^[count] register' := by
  induction count generalizing register register' with
  | zero => rfl
  | succ count ih => rw [Function.iterate_succ_apply, bitStep_xor, ih]; rfl

/-- A register without its highest bits is the one before shifted down so far. -/
theorem toNat_of_bitSteps {count : Nat} (few : count ≤ 32)
    (h : (bitStep^[count] register).toNat < 2 ^ (32 - count)) :
    register.toNat = 2 ^ count * (bitStep^[count] register).toNat := by
  induction count generalizing register with
  | zero => exact (Nat.one_mul _).symm
  | succ count ih =>
    rw [Function.iterate_succ_apply] at h ⊢
    have hwider : 2 ^ (32 - (count + 1)) ≤ 2 ^ (32 - count) :=
      Nat.pow_le_pow_right (by decide) (by omega)
    have hfirst := ih (by omega) (Nat.lt_of_lt_of_le h hwider)
    have hsmall : (bitStep register).toNat < 2 ^ 31 := by
      calc
        (bitStep register).toNat = 2 ^ count * (bitStep^[count] (bitStep register)).toNat := hfirst
        _ < 2 ^ count * 2 ^ (32 - (count + 1)) := Nat.mul_lt_mul_of_pos_left h (Nat.two_pow_pos _)
        _ = 2 ^ (count + (32 - (count + 1))) := (Nat.pow_add ..).symm
        _ = 2 ^ 31 := by rw [show count + (32 - (count + 1)) = 31 by omega]
    rw [toNat_of_bitStep hsmall, hfirst, Nat.pow_succ']
    exact (Nat.mul_assoc ..).symm

theorem byteStep_eq (register : UInt32) (byte : UInt8) :
    byteStep register byte = bitStep^[8] (register ^^^ byte.toUInt32) :=
  rfl

theorem byteStep_xor (register register' : UInt32) (byte byte' : UInt8) :
    byteStep register byte ^^^ byteStep register' byte' =
      bitStep^[8] ((register ^^^ register') ^^^ (byte ^^^ byte').toUInt32) := by
  have hmixed : (register ^^^ register') ^^^ (byte ^^^ byte').toUInt32 =
      (register ^^^ byte.toUInt32) ^^^ (register' ^^^ byte'.toUInt32) := by
    rw [UInt8.toUInt32_xor, UInt32.xor_assoc, UInt32.xor_assoc, ← UInt32.xor_assoc register',
      UInt32.xor_comm register', UInt32.xor_assoc]
  rw [hmixed, bitSteps_xor, byteStep_eq, byteStep_eq]

theorem toNat_byte_lt (byte : UInt8) : byte.toUInt32.toNat < 2 ^ 8 := by
  rw [UInt8.toNat_toUInt32]
  exact byte.toNat_lt

/-! ## Byte strings -/

/-- Different registers stay different. -/
theorem feed_injective (bytes : Bytes) (h : feed register bytes = feed register' bytes) :
    register = register' := by
  induction bytes generalizing register register' with
  | nil => exact h
  | cons byte rest ih =>
    have hstep : byteStep register byte = byteStep register' byte := ih h
    have hzero : bitStep^[8] (register ^^^ register') = 0 := by
      have hxor := byteStep_xor register register' byte byte
      rw [hstep, UInt32.xor_self, UInt8.xor_self] at hxor
      simpa using hxor.symm
    apply UInt32.xor_eq_zero_iff.1
    apply UInt32.toNat_inj.1
    rw [@toNat_of_bitSteps _ 8 (by decide) (by rw [hzero]; decide), hzero]
    rfl

/-- Before a byte with which their difference gets small, two registers differ by a multiple of 256
and the difference of the bytes. -/
theorem toNat_of_byteStep_xor
    (h : (byteStep register byte ^^^ byteStep register' byte').toNat < 2 ^ 24) :
    ((register ^^^ register') ^^^ (byte ^^^ byte').toUInt32).toNat =
      2 ^ 8 * (byteStep register byte ^^^ byteStep register' byte').toNat := by
  rw [byteStep_xor] at h ⊢
  exact toNat_of_bitSteps (by decide) h

/-- Registers that get equal within a few bytes differ in that many of their low bytes at most. -/
theorem xor_lt_of_feed_eq (same : old.length = new.length) (few : old.length ≤ 4)
    (h : feed register old = feed register' new) :
    (register ^^^ register').toNat < 2 ^ (8 * old.length) := by
  induction old generalizing register register' new with
  | nil =>
    obtain rfl := List.length_eq_zero_iff.1 same.symm
    obtain rfl : register = register' := h
    rw [UInt32.xor_self]
    decide
  | cons byte old ih =>
    cases new with
    | nil => cases same
    | cons byte' new =>
      rw [List.length_cons] at few ⊢
      have hrest := ih (Nat.succ.inj same) (by omega) h
      have hsmall : (byteStep register byte ^^^ byteStep register' byte').toNat < 2 ^ 24 :=
        Nat.lt_of_lt_of_le hrest (Nat.pow_le_pow_right (by decide) (by omega))
      have hmixed : ((register ^^^ register') ^^^ (byte ^^^ byte').toUInt32).toNat <
          2 ^ (8 * (old.length + 1)) := by
        rw [toNat_of_byteStep_xor hsmall, Nat.mul_add, Nat.pow_add, Nat.mul_comm]
        exact Nat.mul_lt_mul_of_pos_right hrest (by decide)
      have hbyte : (byte ^^^ byte').toUInt32.toNat < 2 ^ (8 * (old.length + 1)) :=
        Nat.lt_of_lt_of_le (toNat_byte_lt _) (Nat.pow_le_pow_right (by decide) (by omega))
      have hback := Nat.xor_lt_two_pow hmixed hbyte
      rwa [← UInt32.toNat_xor, UInt32.xor_assoc, UInt32.xor_self, UInt32.xor_zero] at hback

/-- From one register, up to four bytes lead to different registers. -/
theorem eq_of_feed_eq (same : old.length = new.length) (few : old.length ≤ 4)
    (h : feed register old = feed register new) : old = new := by
  induction old generalizing register new with
  | nil => exact (List.length_eq_zero_iff.1 same.symm).symm
  | cons byte old ih =>
    cases new with
    | nil => cases same
    | cons byte' new =>
      rw [List.length_cons] at few
      have hlengths := Nat.succ.inj same
      have hrest : (byteStep register byte ^^^ byteStep register byte').toNat < 2 ^ 24 :=
        Nat.lt_of_lt_of_le (xor_lt_of_feed_eq hlengths (by omega) h)
          (Nat.pow_le_pow_right (by decide) (by omega))
      -- The difference of the two bytes is a multiple of 256.
      have hmixed := toNat_of_byteStep_xor hrest
      rw [UInt32.xor_self, UInt32.zero_xor] at hmixed
      have hbyte := toNat_byte_lt (byte ^^^ byte')
      have hzero : (byte ^^^ byte').toUInt32.toNat = 0 := by omega
      have hequal : byte = byte' := by
        apply UInt8.xor_eq_zero_iff.1
        apply UInt8.toNat_inj.1
        rw [← UInt8.toNat_toUInt32, hzero]
        rfl
      subst hequal
      rw [ih hlengths (by omega) h]

/-- A change of at most four bytes in a row changes the checksum. -/
theorem crc32_ne_of_burst (same : old.length = new.length) (few : old.length ≤ 4)
    (different : new ≠ old) : crc32 (front ++ new ++ back) ≠ crc32 (front ++ old ++ back) := by
  intro h
  apply different
  have hfed : feed start (front ++ new ++ back) = feed start (front ++ old ++ back) := by
    have := congrArg (· ^^^ (0xFFFFFFFF : UInt32)) h
    simpa [crc32, finish, UInt32.xor_assoc] using this
  rw [feed_append, feed_append, feed_append, feed_append] at hfed
  exact (eq_of_feed_eq same few (feed_injective back hfed).symm).symm

end OrderedStore.Checksum
