import Hypepool.Net.Runtime

/-!
# Hex strings

`HexToByteArray` of `StringExtensions` reads two code units at a time and checks none of them; a
last odd one is dropped.  Whether a string starts with the prefix is for the current culture to say.
`ToHexString` is the overload of `ArrayExtensions` for a whole array.
-/

namespace Hypepool

/-- The digits of a hex string. -/
def hexDigits : NetString := text "0123456789abcdefABCDEF"

/-- `CultureInfo.CurrentCulture`, which `StartsWith(value)` goes by: what a culture ignores, such as
a soft hyphen, may stand in front of the value or inside it.  Hex digits and the `x` of the prefix
count as themselves, and no character stands for the two of the prefix at once. -/
class CurrentCulture where
  startsWith : (str value : NetString) → Bool
  ordinal : ∀ str, (∀ c ∈ str, c ∈ text "x" ++ hexDigits) →
    startsWith str (text "0x") = (text "0x").isPrefixOf str
  two_le : ∀ str, startsWith str (text "0x") = true → 2 ≤ str.length

namespace OrdinalCulture

/-- The invariant mode of the runtime, where every character counts as itself. -/
scoped instance : CurrentCulture where
  startsWith str value := value.isPrefixOf str
  ordinal _ _ := rfl
  two_le _ starts := (List.isPrefixOf_iff_prefix.mp starts).length_le

end OrdinalCulture

namespace LinguisticCulture

def softHyphen : NetChar := 0xAD

/-- A culture that ignores soft hyphens. -/
scoped instance : CurrentCulture where
  startsWith str value := value.isPrefixOf (str.filter (· ≠ softHyphen))
  ordinal str plain := by
    have kept : str.filter (· ≠ softHyphen) = str := by
      refine List.filter_eq_self.mpr fun c member => ?_
      have allowed : (text "x" ++ hexDigits).all (· ≠ softHyphen) = true := by decide
      exact List.all_eq_true.mp allowed c (plain c member)
    rw [kept]
  two_le str starts :=
    Nat.le_trans (List.isPrefixOf_iff_prefix.mp starts).length_le (List.length_filter_le _ _)

end LinguisticCulture

/-- `GetHexVal`. -/
def getHexVal (hex : NetChar) : Int :=
  let val : Int := hex.toNat
  val - (if val < 58 then 48 else if val < 97 then 55 else 87)

/-- The loop over the pairs of code units. -/
def hexPairs : NetString → Bytes
  | high :: low :: rest => toByte (getHexVal high * 16 + getHexVal low) :: hexPairs rest
  | _ => []

/-- `HexToByteArray`. -/
def hexToByteArray [CurrentCulture] (str : Option NetString) : Except NetException Bytes := do
  let str ← deref str
  if CurrentCulture.startsWith str (text "0x") then return hexPairs (← substringFrom str 2)
  else return hexPairs str

/-- `HexStringTable`. -/
def hexStringTable (value : UInt8) : NetString :=
  let digits := text "0123456789abcdef"
  (digits.drop (value.toNat / 16)).take 1 ++ (digits.drop (value.toNat % 16)).take 1

/-- `ToHexString(value)`, where `null` gives the empty string. -/
def toHexString (value : Option Bytes) : NetString := (value.getD []).flatMap hexStringTable

/-- The two digits of a byte are read back as this byte. -/
theorem hexPairs_hexStringTable (value : UInt8) (rest : NetString) :
    hexPairs (hexStringTable value ++ rest) = value :: hexPairs rest := by
  have table : ∀ n < 256, (hexStringTable (UInt8.ofNat n)).length = 2 ∧
      hexPairs (hexStringTable (UInt8.ofNat n)) = [UInt8.ofNat n] := by
    decide +kernel
  obtain ⟨two, read⟩ := table value.toNat value.toNat_lt
  rw [UInt8.ofNat_toNat] at two read
  obtain ⟨high, low, digits⟩ := List.length_eq_two.mp two
  rw [digits] at read ⊢
  have byte := List.head_eq_of_cons_eq read
  rw [List.cons_append, List.cons_append, List.nil_append, hexPairs, byte]

/-- What `ToHexString` writes is read back. -/
theorem hexPairs_toHexString (bytes : Bytes) : hexPairs (toHexString (some bytes)) = bytes := by
  rw [toHexString, Option.getD_some]
  induction bytes with
  | nil => rfl
  | cons value bytes ih => rw [List.flatMap_cons, hexPairs_hexStringTable, ih]

theorem toHexString_injective {a b : Bytes}
    (same : toHexString (some a) = toHexString (some b)) : a = b := by
  rw [← hexPairs_toHexString a, same, hexPairs_toHexString]

end Hypepool
