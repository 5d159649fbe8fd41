import Hypepool.Base.BigEndian
import Hypepool.Monero.MoneroJob

/-!
# The compact target

`EncodeTarget` should give a miner the four most significant bytes of a 32-byte quotient, least
significant first.  It copies the bytes of the quotient into the 32 bytes only when they are fewer
than 32:

* `encodeTarget_eq_compactTarget_iff`: the target is right exactly from the difficulty 512 on.
-/

namespace Hypepool.MoneroJob

open Base MoneroConstants

/-- `Diff1.Divide(diff).Multiply(255)`, for a positive `diff`. -/
def quotient (diff : Int) : Nat := (diff1 / diff * 255).toNat

/-- What a miner should get: the top of the quotient as four bytes, least significant first. -/
def compactTarget (diff : Int) : NetString :=
  toHexString (some (leBytes (quotient diff / 2 ^ 224).toUInt32))

/-! ## The bytes of a quotient -/

/-- The least number of binary digits. -/
def bitLength (n : Nat) : Nat := if n = 0 then 0 else n.log2 + 1

theorem bitLength_le_iff {n size : Nat} : bitLength n ≤ size ↔ n < 2 ^ size := by
  unfold bitLength
  split
  case isTrue zero =>
    subst zero
    exact iff_of_true (Nat.zero_le size) (Nat.two_pow_pos size)
  case isFalse nonzero => exact Nat.log2_lt nonzero

theorem shiftRight_succ (n place : Nat) :
    Int.shiftRight n (8 * (place + 1)) = Int.shiftRight (n / 0x100 : Nat) (8 * place) := by
  have shift : ∀ m k : Nat, Int.shiftRight m k = (m / 2 ^ k : Nat) := by
    intro m k
    exact congrArg Int.ofNat (Nat.shiftRight_eq_div_pow m k)
  have byte : 2 ^ (8 * (place + 1)) = 0x100 * 2 ^ (8 * place) := by
    rw [Nat.mul_succ, Nat.add_comm, pow_add]
    rfl
  rw [shift, shift, byte, Nat.div_div_eq_div_mul]

/-- The bytes at the places of a number, from the highest place on. -/
theorem map_range_eq_bigEndian (size n : Nat) :
    ((List.range size).reverse.map fun place => toByte (Int.shiftRight n (8 * place))) =
      bigEndian size n := by
  induction size generalizing n with
  | zero => rfl
  | succ size ih =>
      have last : toByte (Int.shiftRight n (8 * 0)) = n.toUInt8 := by
        have low : ((n : Int) % 256).toNat = n % 0x100 := by omega
        have byte := toUInt8_eq (rfl : n % 0x100 = n % 0x100) (Nat.mod_lt n (by decide))
        rw [Nat.mul_zero, toByte, byte, ← low]
        rfl
      rw [List.range_succ_eq_map, List.reverse_cons, List.map_append, ← List.map_reverse,
        List.map_map, bigEndian, ← ih, List.map_singleton, last]
      apply congrArg (· ++ [n.toUInt8])
      apply List.map_congr_left
      intro place _
      exact congrArg toByte (shiftRight_succ n place)

theorem toByteArray_natCast (n : Nat) :
    toByteArray n = bigEndian (bitLength n / 8 + 1) n := by
  rw [toByteArray, if_pos (Int.natCast_nonneg n), Int.toNat_natCast]
  exact map_range_eq_bigEndian _ n

/-- The bytes of a number, and a bit for its sign, hold it. -/
theorem lt_of_toByteArray (n : Nat) : n < 0x100 ^ (bitLength n / 8 + 1) := by
  have enough : bitLength n ≤ 8 * (bitLength n / 8 + 1) := by omega
  have bound := bitLength_le_iff.mp enough
  rw [pow_mul] at bound
  exact bound

/-! ## The quotient -/

theorem quotient_natCast (diff : Nat) : quotient diff = (2 ^ 256 - 1) / diff * 255 := by
  have ones : diff1 = ((2 ^ 256 - 1 : Nat) : Int) := rfl
  rw [quotient, ones]
  exact Int.toNat_natCast _

theorem quotient_antitone {a b : Nat} (positive : 0 < a) (le : a ≤ b) :
    quotient b ≤ quotient a := by
  rw [quotient_natCast, quotient_natCast]
  exact Nat.mul_le_mul_right 255 (Nat.div_le_div_left le positive)

/-- The quotient stays below its sign bit's byte exactly from the difficulty 512 on. -/
theorem quotient_lt_iff {diff : Nat} (positive : 0 < diff) :
    quotient diff < 2 ^ 247 ↔ 130560 ≤ diff := by
  constructor
  · intro small
    by_contra below
    have large := quotient_antitone positive (show diff ≤ 130559 by omega)
    have bound : 2 ^ 247 ≤ quotient (130559 : Nat) := by
      rw [quotient_natCast]
      decide
    omega
  · intro enough
    have small := quotient_antitone (by decide) enough
    have bound : quotient (130560 : Nat) < 2 ^ 247 := by
      rw [quotient_natCast]
      decide
    omega

theorem quotient_lt {diff : Nat} (diff_ge : 255 ≤ diff) : quotient diff < 2 ^ 256 := by
  have small := quotient_antitone (by decide) diff_ge
  have bound : quotient (255 : Nat) < 2 ^ 256 := by
    rw [quotient_natCast]
    decide
  omega

/-! ## The target -/

/-- Four bytes, most significant first, are those of the integer reversed. -/
theorem reverse_bigEndian_four {n : Nat} (bound : n < 2 ^ 32) :
    (bigEndian 4 n).reverse = leBytes n.toUInt32 := by
  have exact_ : n.toUInt32.toNat = n := Nat.mod_eq_of_lt bound
  rw [leBytes, exact_]
  simp only [bigEndian, List.nil_append, List.cons_append, List.reverse_cons, List.reverse_nil,
    Nat.div_div_eq_div_mul]

/-- The bytes of a number, copied to the end of 32 zeros. -/
theorem blockCopy_padded {n : Nat} (small : n < 2 ^ 247) :
    blockCopy (toByteArray n) 0 (List.replicate 32 0) (32 - (toByteArray n).length)
      (toByteArray n).length = .ok (bigEndian 32 n) := by
  have bits := bitLength_le_iff.mpr small
  have room : bitLength n / 8 + 1 ≤ 32 := by omega
  have start : ((32 : Int) - (bitLength n / 8 + 1 : Nat)).toNat = 32 - (bitLength n / 8 + 1) := by
    omega
  rw [toByteArray_natCast, length_bigEndian, blockCopy_eq_ok_iff, start, length_bigEndian,
    List.length_replicate, Nat.sub_add_cancel room]
  refine ⟨by omega, by omega, Nat.le_refl _, ?_⟩
  rw [bigEndian_of_lt (lt_of_toByteArray n) room, List.take_replicate, List.drop_zero,
    List.drop_replicate, Nat.sub_self, List.replicate_zero, List.append_nil,
    Nat.min_eq_left (by omega)]
  apply congrArg (_ ++ ·)
  exact (List.take_of_length_le (Nat.le_of_eq (length_bigEndian _ _))).symm

/-- `EncodeTarget`, for a positive `diff`. -/
theorem encodeTarget_natCast {diff : Nat} (positive : 0 < diff) :
    encodeTarget diff =
      (if 0 < (32 : Int) - (toByteArray (quotient diff)).length then
        blockCopy (toByteArray (quotient diff)) 0 (List.replicate 32 0)
          (32 - (toByteArray (quotient diff)).length) (toByteArray (quotient diff)).length
      else .ok (List.replicate 32 0)).bind
        fun padded => .ok (toHexString (some (padded.take 4).reverse)) := by
  have nonzero : (diff : Int) ≠ 0 := by omega
  have ones : diff1 = ((2 ^ 256 - 1 : Nat) : Int) := rfl
  have division : diff1.tdiv diff * 255 = (quotient diff : Int) := by
    rw [quotient_natCast, ones, ← Int.ofNat_tdiv]
    rfl
  unfold encodeTarget
  rw [if_neg nonzero, Base.ok_bind, division]
  dsimp only
  rw [List.length_replicate]
  split
  · rename_i room
    have room' : 0 < (32 : Int) - (toByteArray (quotient diff)).length := room
    rw [if_pos room']
    rfl
  · rename_i full
    have full' : ¬ 0 < (32 : Int) - (toByteArray (quotient diff)).length := full
    rw [if_neg full']
    rfl

theorem encodeTarget_of_small {diff : Nat} (positive : 0 < diff)
    (small : quotient diff < 2 ^ 247) :
    encodeTarget diff =
      .ok (toHexString (some ((bigEndian 32 (quotient diff)).take 4).reverse)) := by
  have bits := bitLength_le_iff.mpr small
  have room : 0 < (32 : Int) - (toByteArray (quotient diff)).length := by
    rw [toByteArray_natCast, length_bigEndian]
    omega
  rw [encodeTarget_natCast positive, if_pos room, blockCopy_padded small, Except.bind]

/-- A quotient of 32 bytes or more is not copied. -/
theorem encodeTarget_of_large {diff : Nat} (positive : 0 < diff)
    (large : ¬ quotient diff < 2 ^ 247) :
    encodeTarget diff = .ok (toHexString (some (List.replicate 4 0))) := by
  have bits : ¬ bitLength (quotient diff) ≤ 247 := fun few => large (bitLength_le_iff.mp few)
  have full : ¬ 0 < (32 : Int) - (toByteArray (quotient diff)).length := by
    rw [toByteArray_natCast, length_bigEndian]
    omega
  rw [encodeTarget_natCast positive, if_neg full, Except.bind, List.take_replicate,
    List.reverse_replicate]
  rfl

/-- The top of a quotient of 32 bytes. -/
theorem compactTarget_eq {diff : Nat} (bound : quotient diff < 2 ^ 256) :
    compactTarget diff = toHexString (some ((bigEndian 32 (quotient diff)).take 4).reverse) := by
  have front : (bigEndian 32 (quotient diff)).take 4 = bigEndian 4 (quotient diff / 2 ^ 224) :=
    take_bigEndian 4 28 (quotient diff)
  rw [compactTarget, front, reverse_bigEndian_four (Nat.div_lt_of_lt_mul bound)]

/-- **The compact target.**  For every difficulty from 1 on, `EncodeTarget` gives the top four bytes
of the quotient, least significant first, if and only if the difficulty is at least 512. -/
theorem encodeTarget_eq_compactTarget_iff (diff : Int) (diff_ge : 255 ≤ diff) :
    encodeTarget diff = .ok (compactTarget diff) ↔ 130560 ≤ diff := by
  obtain ⟨diff, rfl⟩ := Int.eq_ofNat_of_zero_le (show 0 ≤ diff by omega)
  have positive : 0 < diff := by omega
  have bound : quotient diff < 2 ^ 256 := quotient_lt (by omega)
  have threshold := quotient_lt_iff positive
  constructor
  · intro right
    by_contra below
    have large : ¬ quotient diff < 2 ^ 247 := fun small => below (by omega)
    rw [encodeTarget_of_large positive large] at right
    -- nothing was copied, but the top of the quotient is not zero
    have zeros : leBytes 0 = leBytes (quotient diff / 2 ^ 224).toUInt32 :=
      toHexString_injective (Except.ok.inj right)
    have top : (quotient diff / 2 ^ 224).toUInt32.toNat = quotient diff / 2 ^ 224 :=
      Nat.mod_eq_of_lt (Nat.div_lt_of_lt_mul bound)
    rw [← leBytes_injective zeros] at top
    have tiny : quotient diff < 2 ^ 224 :=
      Nat.lt_of_div_eq_zero (Nat.two_pow_pos 224) top.symm
    omega
  · intro enough
    have small : quotient diff < 2 ^ 247 := threshold.mpr (by omega)
    rw [encodeTarget_of_small positive small, compactTarget_eq bound]

/-- The difficulty a client starts with is one of these. -/
theorem encodeTarget_initial_difficulty :
    encodeTarget (7500 * 255) = .ok (compactTarget (7500 * 255)) := by
  apply (encodeTarget_eq_compactTarget_iff (7500 * 255) (by decide)).mpr
  decide

/-- At the difficulty 1 the quotient has 33 bytes: the target is zero, where every hash should
do. -/
theorem encodeTarget_difficulty_one :
    encodeTarget 255 = .ok (text "00000000") ∧ compactTarget 255 = text "ffffffff" ∧
      encodeTarget 255 ≠ .ok (compactTarget 255) := by
  refine ⟨?_, ?_, ?_⟩
  · decide +kernel
  · decide +kernel
  · decide +kernel

end Hypepool.MoneroJob
