import Hypepool.Base.Positional

/-!
# Numbers as bytes, most significant byte first

`bigEndian size n` are the last `size` bytes of `n`.

* `bigEndian_add`: the bytes of a number are those of its front, followed by those of its back.
* `bigEndian_of_lt`: a number that needs fewer bytes is padded with zeros.
* `ofBigEndian_bigEndian`, `bigEndian_ofBigEndian`: the bytes of a number and the number of bytes.
-/

namespace Hypepool.Base

def bigEndian : Nat → Nat → List UInt8
  | 0, _ => []
  | size + 1, n => bigEndian size (n / 0x100) ++ [n.toUInt8]

@[simp] theorem length_bigEndian (size n : Nat) : (bigEndian size n).length = size := by
  induction size generalizing n with
  | zero => rfl
  | succ size ih => rw [bigEndian, List.length_append, ih, List.length_singleton]

theorem bigEndian_zero (size : Nat) : bigEndian size 0 = List.replicate size 0 := by
  induction size with
  | zero => rfl
  | succ size ih => rw [bigEndian, Nat.zero_div, ih, List.replicate_succ']; rfl

theorem bigEndian_add (front back n : Nat) :
    bigEndian (front + back) n = bigEndian front (n / 0x100 ^ back) ++ bigEndian back n := by
  induction back generalizing n with
  | zero => rw [pow_zero, Nat.div_one, bigEndian, List.append_nil, Nat.add_zero]
  | succ back ih =>
      rw [← Nat.add_assoc, bigEndian, ih, bigEndian, List.append_assoc, Nat.div_div_eq_div_mul,
        pow_succ']

/-- The first bytes are those of the quotient. -/
theorem take_bigEndian (front back n : Nat) :
    (bigEndian (front + back) n).take front = bigEndian front (n / 0x100 ^ back) := by
  rw [bigEndian_add]
  exact List.take_left' (length_bigEndian _ _)

theorem bigEndian_of_lt {size width n : Nat} (fits : n < 0x100 ^ size) (room : size ≤ width) :
    bigEndian width n = List.replicate (width - size) 0 ++ bigEndian size n := by
  have split := bigEndian_add (width - size) size n
  rw [Nat.sub_add_cancel room, Nat.div_eq_of_lt fits, bigEndian_zero] at split
  exact split

/-! ## The number bytes stand for -/

/-- The number whose bytes these are. -/
def ofBigEndian (bytes : List UInt8) : Nat := Nat.ofDigits 0x100 (bytes.map UInt8.toNat).reverse

theorem ofBigEndian_cons (byte : UInt8) (bytes : List UInt8) :
    ofBigEndian (byte :: bytes) = ofBigEndian bytes + 0x100 ^ bytes.length * byte.toNat := by
  rw [ofBigEndian, List.map_cons, Nat.ofDigits_reverse_cons, List.length_map]
  rfl

theorem ofBigEndian_lt (bytes : List UInt8) : ofBigEndian bytes < 0x100 ^ bytes.length := by
  induction bytes with
  | nil => exact Nat.one_pos
  | cons byte bytes ih =>
      have digit := Nat.mul_le_mul_left (0x100 ^ bytes.length) (Nat.succ_le_of_lt byte.toNat_lt)
      rw [ofBigEndian_cons, List.length_cons, Nat.pow_succ]
      rw [Nat.mul_succ] at digit
      omega

theorem bigEndian_eq_written (size n : Nat) :
    bigEndian size n = written Nat.toUInt8 0x100 size n := by
  induction size generalizing n with
  | zero => rfl
  | succ size ih =>
      rw [bigEndian, ih, written_succ_append]
      congr 2
      rw [← UInt8.toNat_inj, UInt8.toNat_ofNat', UInt8.toNat_ofNat', Nat.mod_mod]

theorem ofBigEndian_bigEndian (size n : Nat) :
    ofBigEndian (bigEndian size n) = n % 0x100 ^ size := by
  have digits : (bigEndian size n).map UInt8.toNat = written id 0x100 size n := by
    rw [bigEndian_eq_written, written_eq_map, List.map_map]
    refine (List.map_congr_left fun digit member => ?_).trans (List.map_id _)
    obtain ⟨d, small, rfl⟩ := mem_written (by decide) member
    exact Nat.mod_eq_of_lt small
  rw [ofBigEndian, digits, ofDigits_written]

theorem bigEndian_ofBigEndian (bytes : List UInt8) :
    bigEndian bytes.length (ofBigEndian bytes) = bytes := by
  have small : ∀ digit ∈ bytes.map UInt8.toNat, digit < 0x100 := by
    intro digit member
    obtain ⟨byte, _, rfl⟩ := List.mem_map.mp member
    exact byte.toNat_lt
  have digits := written_ofDigits (by decide) small
  rw [List.length_map] at digits
  rw [bigEndian_eq_written, written_eq_map, ofBigEndian, digits, List.map_map]
  refine (List.map_congr_left fun byte _ => ?_).trans (List.map_id _)
  exact UInt8.ofNat_toNat

end Hypepool.Base
