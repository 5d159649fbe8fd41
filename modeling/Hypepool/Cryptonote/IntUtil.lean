import Mathlib.Tactic.Ring

/-!
# `int-util.h`: the product of two 64-bit integers

`mul128` multiplies by halves of 32 bits, with two carries it takes from comparisons.

* `mul128_eq_words`: it gives the two words of the product.
* `ac_le_productHi`: its assertion always holds.
-/

namespace Hypepool.Cryptonote

def hiDword (val : UInt64) : UInt64 := val >>> 32

def loDword (val : UInt64) : UInt64 := val &&& 0xFFFFFFFF

/-- The low and the high 64 bits of the product. -/
def mul128 (multiplier multiplicand : UInt64) : UInt64 × UInt64 :=
  let a := hiDword multiplier
  let b := loDword multiplier
  let c := hiDword multiplicand
  let d := loDword multiplicand
  let ac := a * c
  let ad := a * d
  let bc := b * c
  let bd := b * d
  let adbc := ad + bc
  let adbcCarry : UInt64 := if adbc < ad then 1 else 0
  let productLo := bd + (adbc <<< 32)
  let productLoCarry : UInt64 := if productLo < bd then 1 else 0
  let productHi := ac + (adbc >>> 32) + (adbcCarry <<< 32) + productLoCarry
  (productLo, productHi)

theorem toNat_hiDword (val : UInt64) : (hiDword val).toNat = val.toNat / 2 ^ 32 := by
  rw [hiDword, UInt64.toNat_shiftRight, Nat.shiftRight_eq_div_pow]
  rfl

theorem toNat_loDword (val : UInt64) : (loDword val).toNat = val.toNat % 2 ^ 32 := by
  rw [loDword, UInt64.toNat_and]
  exact Nat.and_two_pow_sub_one_eq_mod _ 32

/-- The product of two halves fits 64 bits. -/
theorem toNat_mul_of_halves {x y : UInt64} (hx : x.toNat < 2 ^ 32) (hy : y.toNat < 2 ^ 32) :
    (x * y).toNat = x.toNat * y.toNat ∧ x.toNat * y.toNat ≤ (2 ^ 32 - 1) * (2 ^ 32 - 1) := by
  have bound : x.toNat * y.toNat ≤ (2 ^ 32 - 1) * (2 ^ 32 - 1) :=
    Nat.mul_le_mul (by omega) (by omega)
  refine ⟨?_, bound⟩
  rw [UInt64.toNat_mul]
  exact Nat.mod_eq_of_lt (by omega)

/-- The comparison after an addition tells its carry. -/
theorem carry_of_add (x y : UInt64) :
    (x + y).toNat + 2 ^ 64 * (if x + y < x then 1 else 0) = x.toNat + y.toNat := by
  have hx := x.toNat_lt
  have hy := y.toNat_lt
  simp only [UInt64.lt_iff_toNat_lt, UInt64.toNat_add]
  split <;> omega

/-- The carry moved up into the high dword. -/
theorem toNat_carry_shiftLeft (holds : Prop) [Decidable holds] :
    ((if holds then 1 else 0 : UInt64) <<< 32).toNat = 2 ^ 32 * (if holds then 1 else 0) := by
  split <;> rfl

theorem toNat_carry (holds : Prop) [Decidable holds] :
    (if holds then 1 else 0 : UInt64).toNat = if holds then 1 else 0 := by
  split <;> rfl

/-- The product is exact for every pair of factors. -/
theorem mul128_exact (multiplier multiplicand : UInt64) :
    (mul128 multiplier multiplicand).1.toNat + 2 ^ 64 * (mul128 multiplier multiplicand).2.toNat =
      multiplier.toNat * multiplicand.toNat := by
  obtain ⟨a, ha⟩ : ∃ a, a = hiDword multiplier := ⟨_, rfl⟩
  obtain ⟨b, hb⟩ : ∃ b, b = loDword multiplier := ⟨_, rfl⟩
  obtain ⟨c, hc⟩ : ∃ c, c = hiDword multiplicand := ⟨_, rfl⟩
  obtain ⟨d, hd⟩ : ∃ d, d = loDword multiplicand := ⟨_, rfl⟩
  have halves (x : UInt64) : (hiDword x).toNat < 2 ^ 32 ∧ (loDword x).toNat < 2 ^ 32 ∧
      x.toNat = 2 ^ 32 * (hiDword x).toNat + (loDword x).toNat := by
    have bound := x.toNat_lt
    rw [toNat_hiDword, toNat_loDword]
    omega
  obtain ⟨aBound, bBound, whole⟩ := halves multiplier
  obtain ⟨cBound, dBound, whole'⟩ := halves multiplicand
  rw [← ha] at aBound whole
  rw [← hb] at bBound whole
  rw [← hc] at cBound whole'
  rw [← hd] at dBound whole'
  obtain ⟨ac, acBound⟩ := toNat_mul_of_halves aBound cBound
  obtain ⟨ad, adBound⟩ := toNat_mul_of_halves aBound dBound
  obtain ⟨bc, bcBound⟩ := toNat_mul_of_halves bBound cBound
  obtain ⟨bd, bdBound⟩ := toNat_mul_of_halves bBound dBound
  have product : multiplier.toNat * multiplicand.toNat =
      2 ^ 64 * (a.toNat * c.toNat) + 2 ^ 32 * (a.toNat * d.toNat + b.toNat * c.toNat) +
        b.toNat * d.toNat := by
    rw [whole, whole']
    ring
  have middle := carry_of_add (a * d) (b * c)
  have low := carry_of_add (b * d) ((a * d + b * c) <<< 32)
  have shifted : ((a * d + b * c) <<< 32).toNat = 2 ^ 32 * (a * d + b * c).toNat % 2 ^ 64 := by
    rw [UInt64.toNat_shiftLeft, Nat.shiftLeft_eq, Nat.mul_comm]
    rfl
  have up : ((a * d + b * c) >>> 32).toNat = (a * d + b * c).toNat / 2 ^ 32 := by
    rw [UInt64.toNat_shiftRight, Nat.shiftRight_eq_div_pow]
    rfl
  rw [product]
  simp only [mul128, ← ha, ← hb, ← hc, ← hd]
  rw [UInt64.toNat_add (a * c + _ + _), UInt64.toNat_add (a * c + _), UInt64.toNat_add (a * c),
    toNat_carry, toNat_carry_shiftLeft, up]
  rw [ad, bc] at middle
  rw [bd, shifted] at low
  rw [ac]
  omega

/-- `assert(ac <= *product_hi)`: the sum in the high word has not overflowed. -/
theorem ac_le_productHi (multiplier multiplicand : UInt64) :
    hiDword multiplier * hiDword multiplicand ≤ (mul128 multiplier multiplicand).2 := by
  have exact_ := mul128_exact multiplier multiplicand
  have low := (mul128 multiplier multiplicand).1.toNat_lt
  have high (x : UInt64) : (hiDword x).toNat < 2 ^ 32 ∧ 2 ^ 32 * (hiDword x).toNat ≤ x.toNat := by
    have bound := x.toNat_lt
    rw [toNat_hiDword]
    omega
  obtain ⟨aBound, a⟩ := high multiplier
  obtain ⟨cBound, c⟩ := high multiplicand
  have product := Nat.mul_le_mul a c
  rw [Nat.mul_mul_mul_comm] at product
  rw [UInt64.le_iff_toNat_le, (toNat_mul_of_halves aBound cBound).1]
  omega

/-- **The two words of a product.**  The low word is the product modulo 2^64, and the high word, put
together from the halves of the factors and their carries, is the rest of it. -/
theorem mul128_eq_words (multiplier multiplicand : UInt64) :
    mul128 multiplier multiplicand =
      (multiplier * multiplicand,
        UInt64.ofNat (multiplier.toNat * multiplicand.toNat / 2 ^ 64)) := by
  have exact_ := mul128_exact multiplier multiplicand
  have low := (mul128 multiplier multiplicand).1.toNat_lt
  have high := (mul128 multiplier multiplicand).2.toNat_lt
  refine Prod.ext ?_ ?_
  · rw [← UInt64.toNat_inj, UInt64.toNat_mul]
    omega
  · have fits : multiplier.toNat * multiplicand.toNat / 2 ^ 64 < 2 ^ 64 := by omega
    rw [← UInt64.toNat_inj, UInt64.toNat_ofNat_of_lt' fits]
    omega

end Hypepool.Cryptonote
