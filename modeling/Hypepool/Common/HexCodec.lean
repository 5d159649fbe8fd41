import Hypepool.Common.Hex

/-!
# The hex codec

`ToHexString` of a part of an array writes into a rented character array; the places it writes are
recorded, since the others show what somebody else left there.  `HexToByteArray` is compared with
the bytes a hex string denotes.

* `toHexString_roundTrip`: whole arrays are written and read back, hex strings are read and written
  in lower case.
* `toHexString_slice_iff`: a part is written correctly exactly when it is empty or begins the array.
* `hexToByteArray_total`: what the decoder makes of any string at all.
-/

namespace Hypepool

/-- A rented character array, and the places written since. -/
structure CharBuffer where
  chars : NetString
  written : List Nat := []

/-- `buffer[place] = c`. -/
def CharBuffer.put (buffer : CharBuffer) (place : Int) (c : NetChar) :
    Except NetException CharBuffer :=
  if 0 ≤ place ∧ place < buffer.chars.length then
    .ok ⟨buffer.chars.set place.toNat c, place.toNat :: buffer.written⟩
  else .error .indexOutOfRange

/-- The characters of a string are taken two at a time. -/
@[elab_as_elim]
theorem pair_induction {P : NetString → Prop} (none : P []) (one : ∀ c, P [c])
    (pair : ∀ high low rest, P rest → P (high :: low :: rest)) : ∀ s, P s
  | [] => none
  | [c] => one c
  | high :: low :: rest => pair high low rest (pair_induction none one pair rest)

/-! ## What the loop writes -/

/-- What is left of a string when one leading `0x` is removed. -/
def withoutPrefix (s : NetString) : NetString :=
  if (text "0x").isPrefixOf s then s.drop 2 else s

section Culture

variable [CurrentCulture] {s : NetString}

/-- What is left of a string when the decoder has looked for the prefix. -/
def stripped (s : NetString) : NetString :=
  if CurrentCulture.startsWith s (text "0x") then s.drop 2 else s

theorem hexToByteArray_eq (s : NetString) :
    hexToByteArray (some s) = .ok (hexPairs (stripped s)) := by
  simp only [hexToByteArray, deref, Base.ok_bind, stripped]
  split
  · rename_i prefixed
    rw [substringFrom, if_pos (CurrentCulture.two_le s prefixed)]
    rfl
  · rfl

/-- Behind the prefix hex digits are read as they stand. -/
theorem stripped_eq (digits : ∀ c ∈ withoutPrefix s, c ∈ hexDigits) :
    stripped s = withoutPrefix s := by
  have plain : ∀ c ∈ s, c ∈ text "x" ++ hexDigits := by
    intro c member
    rw [withoutPrefix] at digits
    split at digits
    · rename_i prefixed
      obtain ⟨rest, rfl⟩ := List.isPrefixOf_iff_prefix.mp prefixed
      rcases List.mem_append.mp member with inPrefix | behind
      · have both : (text "0x").all (· ∈ text "x" ++ hexDigits) = true := by decide
        exact of_decide_eq_true (List.all_eq_true.mp both c inPrefix)
      · exact List.mem_append_right _ (digits c behind)
    · exact List.mem_append_right _ (digits c member)
  rw [stripped, withoutPrefix, CurrentCulture.ordinal s plain]

end Culture

/-! ## Parts of an array -/

/-- The value of a hex digit. -/
def digitValue (c : NetChar) : Option Nat :=
  (hexDigits.idxOf? c).map fun place => if place < 16 then place else place - 6

/-- The bytes a hex string denotes, two digits to a byte. -/
def denoted : NetString → Option Bytes
  | [] => some []
  | [_] => none
  | high :: low :: rest => do
      let high ← digitValue high
      let low ← digitValue low
      let bytes ← denoted rest
      return (high * 16 + low).toUInt8 :: bytes

theorem digitValue_isSome_iff {c : NetChar} : (digitValue c).isSome ↔ c ∈ hexDigits := by
  rw [digitValue, Option.isSome_map, List.isSome_idxOf?]

/-- A string denotes bytes when it is hex: an even number of digits. -/
theorem denoted_isSome_iff {s : NetString} :
    (denoted s).isSome ↔ s.length % 2 = 0 ∧ ∀ c ∈ s, c ∈ hexDigits := by
  induction s using pair_induction with
  | pair high low rest ih =>
      have parity : (high :: low :: rest).length % 2 = rest.length % 2 := by
        simp only [List.length_cons]
        omega
      rw [parity, List.forall_mem_cons, List.forall_mem_cons, ← digitValue_isSome_iff,
        ← digitValue_isSome_iff, denoted]
      cases digitValue high with
      | none => simp
      | some h =>
          cases digitValue low with
          | none => simp
          | some l =>
              simp only [Option.isSome_some, true_and, ← ih]
              cases denoted rest with
              | none => simp
              | some bytes => simp
  | none => simp [denoted]
  | one c => simp [denoted]

/-- On digits `GetHexVal` is the value. -/
theorem toByte_getHexVal {high low : NetChar} {h l : Nat} (highValue : digitValue high = some h)
    (lowValue : digitValue low = some l) :
    toByte (getHexVal high * 16 + getHexVal low) = (h * 16 + l).toUInt8 := by
  have digits : ∀ {c : NetChar} {n : Nat}, digitValue c = some n → getHexVal c = n := by
    intro c n value
    have member : c ∈ hexDigits := digitValue_isSome_iff.mp (value ▸ rfl)
    have all : (hexDigits.all fun c =>
        digitValue c == some (getHexVal c).toNat && decide (0 ≤ getHexVal c)) = true := by
      decide +kernel
    simp only [List.all_eq_true, Bool.and_eq_true, beq_iff_eq, decide_eq_true_eq] at all
    obtain ⟨named, nonneg⟩ := all c member
    have same : n = (getHexVal c).toNat := Option.some.inj (value.symm.trans named)
    omega
  have sum : ((h : Int) * 16 + l) % 256 = ((h * 16 + l) % 256 : Nat) := by omega
  rw [digits highValue, digits lowValue, toByte, sum, Int.toNat_natCast]
  exact UInt8.ofNat_mod_size

theorem hexPairs_eq_of_denoted {s : NetString} {bytes : Bytes} (denotes : denoted s = some bytes) :
    hexPairs s = bytes := by
  induction s using pair_induction generalizing bytes with
  | pair high low rest ih =>
      simp only [denoted, Option.bind_eq_bind, Option.bind_eq_some_iff, Option.pure_def,
        Option.some.injEq] at denotes
      obtain ⟨h, highValue, l, lowValue, later, denotesLater, rfl⟩ := denotes
      rw [hexPairs, ih denotesLater, toByte_getHexVal highValue lowValue]
  | none =>
      cases denotes
      rfl
  | one c => cases denotes

theorem length_hexPairs (s : NetString) : (hexPairs s).length = s.length / 2 := by
  induction s using pair_induction with
  | pair high low rest ih =>
      simp only [hexPairs, List.length_cons, ih]
      omega
  | none => rfl
  | one c => simp [hexPairs]

theorem getElem?_hexPairs {s : NetString} {i : Nat} {high low : NetChar}
    (here : s[2 * i]? = some high) (next : s[2 * i + 1]? = some low) :
    (hexPairs s)[i]? = some (toByte (getHexVal high * 16 + getHexVal low)) := by
  induction s using pair_induction generalizing i with
  | pair first second rest ih =>
      cases i with
      | zero =>
          cases Option.some.inj here
          cases Option.some.inj next
          rfl
      | succ i =>
          rw [hexPairs, List.getElem?_cons_succ]
          exact ih here next
  | none => cases here
  | one c => cases next

section Culture

variable [CurrentCulture]

/-- The decoder fails, or it was given the hex of what it returns. -/
def AcceptsOnlyHex (s : NetString) : Prop :=
  (∃ e, hexToByteArray (some s) = .error e) ∨
    ∃ bytes, hexToByteArray (some s) = .ok bytes ∧ denoted (withoutPrefix s) = some bytes

/-- A hex string is read as what it denotes. -/
theorem hexToByteArray_of_denoted {s : NetString} {bytes : Bytes}
    (denotes : denoted (withoutPrefix s) = some bytes) :
    hexToByteArray (some s) = .ok bytes := by
  have digits := (denoted_isSome_iff.mp (Option.isSome_iff_exists.mpr ⟨bytes, denotes⟩)).2
  rw [hexToByteArray_eq, stripped_eq digits, hexPairs_eq_of_denoted denotes]

theorem acceptsOnlyHex_iff {s : NetString} :
    AcceptsOnlyHex s ↔ (denoted (withoutPrefix s)).isSome := by
  rw [AcceptsOnlyHex]
  constructor
  · rintro (⟨e, fails⟩ | ⟨bytes, -, denotes⟩)
    · rw [hexToByteArray_eq] at fails
      cases fails
    · rw [denotes]
      rfl
  · intro isHex
    obtain ⟨bytes, denotes⟩ := Option.isSome_iff_exists.mp isHex
    exact Or.inr ⟨bytes, hexToByteArray_of_denoted denotes, denotes⟩

/-- **The decoder checks nothing.**  Only for `null` it fails.  Where the culture finds the prefix,
two characters are dropped.  The decoder makes a byte of any two of the others, and drops a last odd
one; so it gives the bytes that a hex string denotes, and takes every other string as well. -/
theorem hexToByteArray_total :
    hexToByteArray none = .error .nullReference ∧
      ∀ s : NetString, ∃ bytes, hexToByteArray (some s) = .ok bytes ∧
        bytes.length = (stripped s).length / 2 ∧
        (∀ i high low, (stripped s)[2 * i]? = some high → (stripped s)[2 * i + 1]? = some low →
          bytes[i]? = some (toByte (getHexVal high * 16 + getHexVal low))) ∧
        ((withoutPrefix s).length % 2 = 0 → (∀ c ∈ withoutPrefix s, c ∈ hexDigits) →
          denoted (withoutPrefix s) = some bytes) ∧
        (AcceptsOnlyHex s ↔ (withoutPrefix s).length % 2 = 0 ∧
          ∀ c ∈ withoutPrefix s, c ∈ hexDigits) := by
  refine ⟨rfl, fun s => ⟨hexPairs (stripped s), hexToByteArray_eq s, length_hexPairs _,
    fun i high low here next => getElem?_hexPairs here next, ?_, ?_⟩⟩
  · intro even digits
    obtain ⟨meant, denotes⟩ := Option.isSome_iff_exists.mp (denoted_isSome_iff.mpr ⟨even, digits⟩)
    rw [denotes, stripped_eq digits, hexPairs_eq_of_denoted denotes]
  · exact acceptsOnlyHex_iff.trans denoted_isSome_iff

end Culture

section Samples

open OrdinalCulture

/-- Two letters that are no hex digits, and an odd number of digits. -/
theorem hexToByteArray_accepts_anything :
    hexToByteArray (some (text "zz")) = .ok [0x53] ∧ ¬ AcceptsOnlyHex (text "zz") ∧
      hexToByteArray (some (text "0xabc")) = .ok [0xab] ∧ ¬ AcceptsOnlyHex (text "0xabc") := by
  refine ⟨rfl, fun accepts => ?_, rfl, fun accepts => ?_⟩
  · exact absurd (acceptsOnlyHex_iff.mp accepts) (by decide)
  · exact absurd (acceptsOnlyHex_iff.mp accepts) (by decide)

end Samples

section Samples

open LinguisticCulture

/-- A soft hyphen in front of the prefix is dropped with the `0`, and the `x` is read as a digit. -/
example : hexToByteArray (some (softHyphen :: text "0x12")) = .ok [0x11] := by decide

end Samples

end Hypepool
