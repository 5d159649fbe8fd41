import Hypepool.Net.Runtime

/-!
# The bytes of a 32-bit integer

`BitConverter.GetBytes` and `ToBigEndian` of `NumberExtensions`, on a host of either byte order.
`getBytes_toBigEndian` says that the two together do not depend on it.
-/

namespace Hypepool

/-- The four bytes of a value, least significant first. -/
def leBytes (value : UInt32) : Bytes :=
  [value.toNat.toUInt8, (value.toNat / 0x100).toUInt8, (value.toNat / 0x10000).toUInt8,
    (value.toNat / 0x1000000).toUInt8]

/-- The value with its four bytes in the opposite order. -/
def swapBytes (value : UInt32) : UInt32 :=
  (value.toNat % 0x100 * 0x1000000 + value.toNat / 0x100 % 0x100 * 0x10000 +
    value.toNat / 0x10000 % 0x100 * 0x100 + value.toNat / 0x1000000).toUInt32

/-- `BitConverter.GetBytes`. -/
def getBytes (isLittleEndian : Bool) (value : UInt32) : Bytes :=
  if isLittleEndian then leBytes value else (leBytes value).reverse

/-- `ToBigEndian` of `NumberExtensions`. -/
def toBigEndian (isLittleEndian : Bool) (value : UInt32) : UInt32 :=
  if isLittleEndian then swapBytes value else value

theorem exists_digits {n : Nat} (bound : n < 0x100000000) :
    ∃ a b c d, a < 0x100 ∧ b < 0x100 ∧ c < 0x100 ∧ d < 0x100 ∧
      n = a + 0x100 * b + 0x10000 * c + 0x1000000 * d :=
  ⟨n % 0x100, n / 0x100 % 0x100, n / 0x10000 % 0x100, n / 0x1000000, by omega, by omega, by omega,
    by omega, by omega⟩

theorem digits_eq {a b c d n : Nat} (a_lt : a < 0x100) (b_lt : b < 0x100) (c_lt : c < 0x100)
    (d_lt : d < 0x100) (digits : n = a + 0x100 * b + 0x10000 * c + 0x1000000 * d) :
    n % 0x100 = a ∧ n / 0x100 % 0x100 = b ∧ n / 0x10000 % 0x100 = c ∧ n / 0x1000000 % 0x100 = d :=
  ⟨by omega, by omega, by omega, by omega⟩

theorem toUInt8_eq {m n : Nat} (same : m % 0x100 = n) (n_lt : n < 0x100) :
    m.toUInt8 = n.toUInt8 :=
  UInt8.toNat_inj.mp (same.trans (Nat.mod_eq_of_lt n_lt).symm)

theorem leBytes_of_digits {value : UInt32} {a b c d : Nat} (a_lt : a < 0x100) (b_lt : b < 0x100)
    (c_lt : c < 0x100) (d_lt : d < 0x100)
    (digits : value.toNat = a + 0x100 * b + 0x10000 * c + 0x1000000 * d) :
    leBytes value = [a.toUInt8, b.toUInt8, c.toUInt8, d.toUInt8] := by
  obtain ⟨first, second, third, fourth⟩ := digits_eq a_lt b_lt c_lt d_lt digits
  rw [leBytes, toUInt8_eq first a_lt, toUInt8_eq second b_lt, toUInt8_eq third c_lt,
    toUInt8_eq fourth d_lt]

theorem leBytes_swapBytes (value : UInt32) :
    leBytes (swapBytes value) = (leBytes value).reverse := by
  obtain ⟨a, b, c, d, a_lt, b_lt, c_lt, d_lt, digits⟩ := exists_digits value.toNat_lt
  obtain ⟨first, second, third, fourth⟩ := digits_eq a_lt b_lt c_lt d_lt digits
  have top : value.toNat / 0x1000000 = d := by omega
  have swapped : (swapBytes value).toNat = d + 0x100 * c + 0x10000 * b + 0x1000000 * a := by
    have sum : a * 0x1000000 + b * 0x10000 + c * 0x100 + d =
        d + 0x100 * c + 0x10000 * b + 0x1000000 * a := by omega
    rw [swapBytes, first, second, third, top, sum]
    exact Nat.mod_eq_of_lt (by omega)
  rw [leBytes_of_digits a_lt b_lt c_lt d_lt digits,
    leBytes_of_digits d_lt c_lt b_lt a_lt swapped]
  rfl

/-- On either host the bytes of `ToBigEndian` come most significant first. -/
theorem getBytes_toBigEndian (isLittleEndian : Bool) (value : UInt32) :
    getBytes isLittleEndian (toBigEndian isLittleEndian value) = (leBytes value).reverse := by
  cases isLittleEndian with
  | true => exact leBytes_swapBytes value
  | false => rfl

theorem leBytes_injective {a b : UInt32} (same : leBytes a = leBytes b) : a = b := by
  have boundA := a.toNat_lt
  have boundB := b.toNat_lt
  have digit : ∀ {m n : Nat}, m.toUInt8 = n.toUInt8 → m % 0x100 = n % 0x100 := by
    intro m n equal
    exact congrArg UInt8.toNat equal
  simp only [leBytes, List.cons.injEq, and_true] at same
  obtain ⟨zero, one, two, three⟩ := same
  have first := digit zero
  have second := digit one
  have third := digit two
  have fourth := digit three
  exact UInt32.toNat_inj.mp (by omega)

end Hypepool
