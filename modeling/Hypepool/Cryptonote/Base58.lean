import Hypepool.Base.BigEndian
import Hypepool.Base.BlockCode
import Hypepool.Base.Positional
import Hypepool.Cryptonote.IntUtil
import Hypepool.Net.Runtime
import Mathlib.Tactic.Ring

/-!
# `base58.cpp`: bytes as letters

Eight bytes become eleven letters to base 58, and a shorter block behind them becomes as many
letters as its numbers need.  A decoder that met more letters than a number of 64 bits has room for,
or a number too large for its block, refuses them.
-/

namespace Hypepool.Cryptonote.Base58

open Base

def alphabet : Bytes := ascii "123456789ABCDEFGHJKLMNPQRSTUVWXYZabcdefghijkmnopqrstuvwxyz"

def alphabetSize : UInt64 := UInt64.ofNat alphabet.length

def encodedBlockSizes : List Nat := [0, 2, 3, 5, 6, 7, 9, 10, 11]

def fullBlockSize : Nat := encodedBlockSizes.length - 1

def fullEncodedBlockSize : Nat := encodedBlockSizes.getD fullBlockSize 0

/-- `alphabet[i]`. -/
def letter (i : Nat) : UInt8 := alphabet.getD i 0

/-- `letter - alphabet[0]` for a signed `char`, as a `size_t`. -/
def letterIndex (letter : UInt8) : Nat :=
  ((letter.toInt8.toInt - (alphabet.getD 0 0).toNat) % 2 ^ 64).toNat

/-- The table the constructor of `reverse_alphabet` builds. -/
def reverseAlphabetData : List Int :=
  (List.range alphabetSize.toNat).foldl (fun data (i : Nat) => data.set (letterIndex (letter i)) i)
    (List.replicate (letterIndex (letter (alphabetSize.toNat - 1)) + 1) (-1))

/-- `reverse_alphabet::operator()`. -/
def reverseAlphabet (letter : UInt8) : Int := reverseAlphabetData.getD (letterIndex letter) (-1)

/-- The table the constructor of `decoded_block_sizes` builds. -/
def decodedBlockSizesData : List Int :=
  (List.range (fullBlockSize + 1)).foldl
    (fun data (i : Nat) => data.set (encodedBlockSizes.getD i 0) i)
    (List.replicate (fullEncodedBlockSize + 1) (-1))

/-- `decoded_block_sizes::operator()`. -/
def decodedBlockSizes (encodedBlockSize : Nat) : Int :=
  decodedBlockSizesData.getD encodedBlockSize (-1)

/-- `res <<= 8; res |= *data++`. -/
def shiftIn (res : UInt64) (byte : UInt8) : UInt64 := (res <<< 8) ||| byte.toUInt64

/-- `uint_8be_to_64`. -/
def uint8beTo64 (data : Bytes) : UInt64 := data.foldl shiftIn 0

/-- `uint_64_to_8be`: the last `size` bytes of the number, most significant byte first. -/
def uint64To8be (num : UInt64) (size : Nat) : Bytes := (bigEndian 8 num.toNat).drop (8 - size)

/-- The loop of `encode_block`, with the letters at `0` to `i - 1` still to be written; `none` is a
write in front of `res`. -/
def encodeDigits : (i : Nat) → (num : UInt64) → (res : Bytes) → Option Bytes
  | 0, num, res => if 0 < num then none else some res
  | i + 1, num, res =>
      if 0 < num then
        encodeDigits i (num / alphabetSize) (res.set i (letter (num % alphabetSize).toNat))
      else some res

/-- `encode_block`, into letters that are `alphabet[0]` before. -/
def encodeBlock (block : Bytes) : Option Bytes :=
  let size := encodedBlockSizes.getD block.length 0
  encodeDigits size (uint8beTo64 block) (List.replicate size (letter 0))

/-- The loop of `decode_block`, over the letters from the last one on. -/
def decodeDigits : (resNum order : UInt64) → Bytes → Option UInt64
  | resNum, _, [] => some resNum
  | resNum, order, letter :: letters =>
      let digit := reverseAlphabet letter
      if digit < 0 then none
      else
        let (product, productHi) := mul128 order (UInt64.ofNat digit.toNat)
        let tmp := resNum + product
        if tmp < resNum ∨ productHi ≠ 0 then none
        else decodeDigits tmp (order * alphabetSize) letters

/-- `decode_block`. -/
def decodeBlock (block : Bytes) : Option Bytes := do
  let resSize := decodedBlockSizes block.length
  if resSize ≤ 0 then none
  else
    let resNum ← decodeDigits 0 1 block.reverse
    if resSize.toNat < fullBlockSize ∧
        (1 : UInt64) <<< UInt64.ofNat (8 * resSize.toNat) ≤ resNum then none
    else some (uint64To8be resNum resSize.toNat)

/-- `encode`. -/
def encode (data : Bytes) : Option Bytes :=
  if data = [] then some [] else inBlocks fullBlockSize encodeBlock data

/-- `decode`. -/
def decode (enc : Bytes) : Option Bytes :=
  if enc = [] then some []
  else if decodedBlockSizes (enc.length % fullEncodedBlockSize) < 0 then none
  else inBlocks fullEncodedBlockSize decodeBlock enc

/-! ## The tables -/

/-- Every digit has its letter, and every letter its digit. -/
theorem reverseAlphabet_letter {digit : Nat} (small : digit < 58) :
    reverseAlphabet (letter digit) = digit := by
  have table : ∀ digit, digit < 58 → reverseAlphabet (letter digit) = digit := by decide +kernel
  exact table digit small

theorem letter_reverseAlphabet {c : UInt8} (known : 0 ≤ reverseAlphabet c) :
    (reverseAlphabet c).toNat < 58 ∧ letter (reverseAlphabet c).toNat = c := by
  have table : ∀ code, code < 256 → 0 ≤ reverseAlphabet code.toUInt8 →
      (reverseAlphabet code.toUInt8).toNat < 58 ∧
        letter (reverseAlphabet code.toUInt8).toNat = code.toUInt8 := by
    decide +kernel
  have whole : c.toNat.toUInt8 = c := UInt8.ofNat_toNat
  have entry := table c.toNat c.toNat_lt
  rw [whole] at entry
  exact entry known

/-- How many letters a block of `size` bytes has. -/
def encodedSize (size : Nat) : Nat := encodedBlockSizes.getD size 0

/-- The letters of a block have room for its numbers, and those of a short block are fewer than
those of a full one. -/
theorem encodedSize_spec {size : Nat} (nonempty : 0 < size) (within : size ≤ 8) :
    decodedBlockSizes (encodedSize size) = size ∧ 0x100 ^ size ≤ 58 ^ encodedSize size ∧
      0 < encodedSize size ∧ encodedSize size ≤ 11 ∧ (size < 8 → encodedSize size < 11) := by
  have table : ∀ size, size < 9 → 0 < size → decodedBlockSizes (encodedSize size) = size ∧
      0x100 ^ size ≤ 58 ^ encodedSize size ∧ 0 < encodedSize size ∧ encodedSize size ≤ 11 ∧
      (size < 8 → encodedSize size < 11) := by
    decide
  exact table size (by omega) nonempty

theorem encodedSize_decodedBlockSizes {count : Nat} (within : count ≤ 11)
    (known : 0 < decodedBlockSizes count) :
    ∃ size : Nat, 0 < size ∧ size ≤ 8 ∧ decodedBlockSizes count = size ∧
      count = encodedSize size := by
  have table : ∀ count, count < 12 → 0 < decodedBlockSizes count →
      0 < (decodedBlockSizes count).toNat ∧ (decodedBlockSizes count).toNat ≤ 8 ∧
        count = encodedSize (decodedBlockSizes count).toNat := by
    decide
  obtain ⟨nonempty, small, same⟩ := table count (by omega) known
  exact ⟨_, nonempty, small, (Int.toNat_of_nonneg (by omega)).symm, same⟩

/-! ## The number of a block -/

theorem toNat_shiftIn {res : UInt64} {byte : UInt8} (room : res.toNat < 2 ^ 56) :
    (shiftIn res byte).toNat = res.toNat * 0x100 + byte.toNat := by
  have shifted : (res <<< 8).toNat = 2 ^ 8 * res.toNat := by
    rw [UInt64.toNat_shiftLeft, Nat.shiftLeft_eq, Nat.mul_comm]
    exact Nat.mod_eq_of_lt (by change 2 ^ 8 * res.toNat < 2 ^ 64; omega)
  rw [shiftIn, UInt64.toNat_or, shifted, UInt8.toNat_toUInt64,
    ← Nat.two_pow_add_eq_or_of_lt byte.toNat_lt, Nat.mul_comm]

/-- Bytes shifted in behind `res`. -/
theorem toNat_foldl_shiftIn {block : Bytes} {res : UInt64}
    (room : (res.toNat + 1) * 0x100 ^ block.length ≤ 2 ^ 64) :
    (block.foldl shiftIn res).toNat =
      res.toNat * 0x100 ^ block.length + ofBigEndian block := by
  induction block generalizing res with
  | nil => rw [List.length_nil, Nat.pow_zero, Nat.mul_one]; rfl
  | cons byte block ih =>
      have power : 0 < 0x100 ^ block.length := Nat.pow_pos (by decide)
      have byteBound := byte.toNat_lt
      rw [List.length_cons, Nat.pow_succ'] at room ⊢
      have small : (res.toNat + 1) * 0x100 ≤ 2 ^ 64 := by
        rw [← Nat.mul_assoc] at room
        exact Nat.le_trans (Nat.le_mul_of_pos_right _ power) room
      have step : (shiftIn res byte).toNat = res.toNat * 0x100 + byte.toNat :=
        toNat_shiftIn (by omega)
      rw [List.foldl_cons, ih, step, ofBigEndian_cons]
      · ring
      · rw [step]
        refine Nat.le_trans (Nat.mul_le_mul_right _ ?_) (Nat.mul_assoc _ _ _ ▸ room)
        omega

/-- The bytes of a block, as a number. -/
theorem toNat_uint8beTo64 {block : Bytes} (within : block.length ≤ 8) :
    (uint8beTo64 block).toNat = ofBigEndian block := by
  have room : 0x100 ^ block.length ≤ 0x100 ^ 8 := Nat.pow_le_pow_right (by decide) within
  have zero : (0 : UInt64).toNat = 0 := rfl
  rw [uint8beTo64, toNat_foldl_shiftIn, zero, Nat.zero_mul, Nat.zero_add]
  rw [zero]
  omega

theorem uint64To8be_eq {num : UInt64} {size : Nat} (within : size ≤ 8) :
    uint64To8be num size = bigEndian size num.toNat := by
  have split := bigEndian_add (8 - size) size num.toNat
  rw [Nat.sub_add_cancel within] at split
  rw [uint64To8be, split, List.drop_left' (length_bigEndian _ _)]

/-! ## The letters of a block -/

theorem toNat_alphabetSize : alphabetSize.toNat = 58 := by decide

/-- The loop writes the digits of the number, and would write in front of them when it has more. -/
theorem encodeDigits_eq {i : Nat} {num : UInt64} {tail : Bytes} :
    encodeDigits i num (List.replicate i (letter 0) ++ tail) =
      if num.toNat < 58 ^ i then some (written letter 58 i num.toNat ++ tail) else none := by
  induction i generalizing num tail with
  | zero =>
      rw [encodeDigits, Nat.pow_zero]
      split
      · rename_i positive
        rw [UInt64.lt_iff_toNat_lt] at positive
        exact (if_neg (Nat.not_lt.mpr positive)).symm
      · rename_i zero
        rw [UInt64.lt_iff_toNat_lt, Nat.not_lt] at zero
        exact (if_pos (Nat.lt_succ_of_le zero)).symm
  | succ i ih =>
      rw [encodeDigits]
      split
      · have room : num.toNat / 58 < 58 ^ i ↔ num.toNat < 58 ^ (i + 1) := by
          rw [Nat.div_lt_iff_lt_mul (by decide), Nat.pow_succ]
        have put : (List.replicate (i + 1) (letter 0) ++ tail).set i
              (letter (num % alphabetSize).toNat) =
            List.replicate i (letter 0) ++ letter (num.toNat % 58) :: tail := by
          rw [List.replicate_succ', List.append_assoc, List.singleton_append, UInt64.toNat_mod,
            toNat_alphabetSize, List.set_append_right _ _ (by simp)]
          simp
        rw [put, ih, UInt64.toNat_div, toNat_alphabetSize, written_succ_append]
        simp only [room, List.append_assoc, List.singleton_append]
      · rename_i notPositive
        have zero : num.toNat = 0 :=
          Nat.eq_zero_of_not_pos fun positive =>
            notPositive (UInt64.lt_iff_toNat_lt.mpr positive)
        rw [zero, written_zero, if_pos (Nat.pow_pos (by decide))]

/-- A block becomes the digits of its number, as many as its length says. -/
theorem encodeBlock_eq {block : Bytes} (nonempty : 0 < block.length) (within : block.length ≤ 8) :
    encodeBlock block =
      some (written letter 58 (encodedSize block.length) (ofBigEndian block)) := by
  obtain ⟨_, room, _⟩ := encodedSize_spec nonempty within
  have fits := Nat.lt_of_lt_of_le (ofBigEndian_lt block) room
  have loop := @encodeDigits_eq (encodedSize block.length) (uint8beTo64 block) []
  rw [toNat_uint8beTo64 within, if_pos fits, List.append_nil, List.append_nil] at loop
  exact loop

/-- One letter of the loop: it fails where 64 bits do not hold what was read. -/
theorem decodeDigits_letter {resNum order : UInt64} {digit : Nat} {letters : Bytes}
    (small : digit < 58) :
    decodeDigits resNum order (letter digit :: letters) =
      if resNum.toNat + order.toNat * digit < 2 ^ 64 then
        decodeDigits (UInt64.ofNat (resNum.toNat + order.toNat * digit)) (order * alphabetSize)
          letters
      else none := by
  have digitBound : digit < 2 ^ 64 := by omega
  have product := mul128_exact order (UInt64.ofNat digit)
  rw [UInt64.toNat_ofNat_of_lt' digitBound] at product
  have sum := carry_of_add resNum (mul128 order (UInt64.ofNat digit)).1
  have lowBound := (mul128 order (UInt64.ofNat digit)).1.toNat_lt
  have sumBound := (resNum + (mul128 order (UInt64.ofNat digit)).1).toNat_lt
  have nonneg : ¬ (digit : Int) < 0 := by omega
  rw [decodeDigits, reverseAlphabet_letter small, if_neg nonneg, Int.toNat_natCast]
  dsimp only
  by_cases carry : resNum + (mul128 order (UInt64.ofNat digit)).1 < resNum
  · rw [if_pos carry] at sum
    rw [if_pos (Or.inl carry), if_neg (by omega)]
  rw [if_neg carry] at sum
  by_cases high : (mul128 order (UInt64.ofNat digit)).2 = 0
  · rw [high] at product
    change _ + 2 ^ 64 * 0 = _ at product
    have fits : resNum.toNat + order.toNat * digit < 2 ^ 64 := by omega
    have same : resNum + (mul128 order (UInt64.ofNat digit)).1 =
        UInt64.ofNat (resNum.toNat + order.toNat * digit) := by
      rw [← UInt64.toNat_inj, UInt64.toNat_ofNat_of_lt' fits]
      omega
    have accepted : ¬ (resNum + (mul128 order (UInt64.ofNat digit)).1 < resNum ∨
        (mul128 order (UInt64.ofNat digit)).2 ≠ 0) :=
      fun overflow => overflow.elim carry fun nonzero => nonzero high
    rw [if_neg accepted, if_pos fits, same]
  · have positive : (mul128 order (UInt64.ofNat digit)).2.toNat ≠ 0 :=
      fun zero => high (UInt64.toNat_inj.mp zero)
    rw [if_pos (Or.inr high), if_neg (by omega)]

/-- Letters that all stand for digits, from the last one on: the order is exact up to the eleventh,
and is not used after it. -/
theorem decodeDigits_letters {digits : List Nat} {place : Nat} {resNum : UInt64}
    (small : ∀ digit ∈ digits, digit < 58) (within : place + digits.length ≤ 11) :
    decodeDigits resNum (UInt64.ofNat (58 ^ place)) (digits.map letter) =
      if resNum.toNat + 58 ^ place * Nat.ofDigits 58 digits < 2 ^ 64 then
        some (UInt64.ofNat (resNum.toNat + 58 ^ place * Nat.ofDigits 58 digits))
      else none := by
  induction digits generalizing place resNum with
  | nil =>
      rw [Nat.ofDigits_nil, Nat.mul_zero, Nat.add_zero, if_pos resNum.toNat_lt, UInt64.ofNat_toNat]
      rfl
  | cons digit digits ih =>
      rw [List.length_cons] at within
      have power : 58 ^ place ≤ 58 ^ 10 := Nat.pow_le_pow_right (by decide) (by omega)
      have exact : (UInt64.ofNat (58 ^ place)).toNat = 58 ^ place :=
        UInt64.toNat_ofNat_of_lt' (Nat.lt_of_le_of_lt power (by decide))
      have next : UInt64.ofNat (58 ^ place) * alphabetSize = UInt64.ofNat (58 ^ (place + 1)) := by
        rw [Nat.pow_succ, UInt64.ofNat_mul]
        rfl
      have value : resNum.toNat + 58 ^ place * Nat.ofDigits 58 (digit :: digits) =
          resNum.toNat + 58 ^ place * digit + 58 ^ (place + 1) * Nat.ofDigits 58 digits := by
        rw [Nat.ofDigits_cons, Nat.pow_succ]
        ring
      rw [List.map_cons, decodeDigits_letter (small digit List.mem_cons_self), exact, next, value]
      split
      · rename_i fits
        rw [ih (fun d later => small d (List.mem_cons_of_mem _ later)) (by omega),
          UInt64.toNat_ofNat_of_lt' fits]
      · rename_i overflow
        rw [if_neg (by omega)]

/-- Letters the loop accepts all stand for digits. -/
theorem digits_of_decodeDigits {letters : Bytes} {resNum order result : UInt64}
    (accepted : decodeDigits resNum order letters = some result) :
    ∃ digits : List Nat, letters = digits.map letter ∧ ∀ digit ∈ digits, digit < 58 := by
  induction letters generalizing resNum order with
  | nil => exact ⟨[], rfl, by simp⟩
  | cons c letters ih =>
      rw [decodeDigits] at accepted
      split at accepted
      · cases accepted
      rename_i known
      obtain ⟨small, same⟩ := letter_reverseAlphabet (Int.not_lt.mp known)
      dsimp only at accepted
      split at accepted
      · cases accepted
      obtain ⟨digits, rfl, all⟩ := ih accepted
      refine ⟨(reverseAlphabet c).toNat :: digits, by rw [List.map_cons, same], ?_⟩
      intro digit member
      rcases List.mem_cons.mp member with rfl | later
      · exact small
      · exact all digit later

/-- The bound a short block is held against. -/
theorem toNat_blockBound {size : Nat} (short : size < 8) :
    ((1 : UInt64) <<< UInt64.ofNat (8 * size)).toNat = 0x100 ^ size := by
  have table : ∀ size, size < 8 →
      ((1 : UInt64) <<< UInt64.ofNat (8 * size)).toNat = 0x100 ^ size := by
    decide
  exact table size short

/-- The letters of a number are decoded to its bytes when it fits them, and refused otherwise. -/
theorem decodeBlock_written {size number : Nat} (nonempty : 0 < size) (within : size ≤ 8)
    (reaches : number < 58 ^ encodedSize size) :
    decodeBlock (written letter 58 (encodedSize size) number) =
      if number < 0x100 ^ size then some (bigEndian size number) else none := by
  obtain ⟨decoded, _, _, few, _⟩ := encodedSize_spec nonempty within
  have small : ∀ digit ∈ (written id 58 (encodedSize size) number).reverse, digit < 58 := by
    intro digit member
    obtain ⟨d, below, rfl⟩ := mem_written (by decide) (List.mem_reverse.mp member)
    exact below
  have loop := @decodeDigits_letters _ 0 0 small
    (by rw [List.length_reverse, written_length]; omega)
  have zero : (0 : UInt64).toNat = 0 := rfl
  rw [List.map_reverse, ← written_eq_map, ofDigits_written, Nat.mod_eq_of_lt reaches, Nat.pow_zero,
    Nat.one_mul, zero, Nat.zero_add] at loop
  have one : (1 : UInt64) = UInt64.ofNat 1 := rfl
  have positive : ¬ (size : Int) ≤ 0 := by omega
  rw [decodeBlock, written_length, decoded, if_neg positive, one, loop, Int.toNat_natCast]
  have wide : 0x100 ^ size ≤ 0x100 ^ 8 := Nat.pow_le_pow_right (by decide) within
  by_cases fits : number < 2 ^ 64
  · have toNat : (UInt64.ofNat number).toNat = number := UInt64.toNat_ofNat_of_lt' fits
    rw [if_pos fits]
    change (if size < fullBlockSize ∧ (1 : UInt64) <<< UInt64.ofNat (8 * size) ≤
      UInt64.ofNat number then none else some (uint64To8be (UInt64.ofNat number) size)) = _
    rw [uint64To8be_eq within, toNat]
    by_cases inside : number < 0x100 ^ size
    · rw [if_pos inside, if_neg]
      rintro ⟨short, above⟩
      rw [UInt64.le_iff_toNat_le, toNat_blockBound short, toNat] at above
      omega
    · have short : size < 8 := by
        refine Nat.lt_of_le_of_ne within fun full => inside ?_
        rw [full]
        exact fits
      rw [if_neg inside, if_pos]
      refine ⟨short, ?_⟩
      rw [UInt64.le_iff_toNat_le, toNat_blockBound short, toNat]
      omega
  · rw [if_neg fits, if_neg (by omega)]
    rfl

/-- Whatever a block is decoded from are the letters of a number that fits its bytes. -/
theorem of_decodeBlock {block data : Bytes} (within : block.length ≤ 11)
    (accepted : decodeBlock block = some data) :
    ∃ size number, 0 < size ∧ size ≤ 8 ∧ number < 0x100 ^ size ∧
      block = written letter 58 (encodedSize size) number ∧ data = bigEndian size number := by
  have unfolded := accepted
  rw [decodeBlock] at unfolded
  split at unfolded
  · cases unfolded
  rename_i known
  obtain ⟨size, nonempty, small, _, length⟩ :=
    encodedSize_decodedBlockSizes within (Int.not_le.mp known)
  obtain ⟨result, loop, _⟩ := Option.bind_eq_some_iff.mp unfolded
  obtain ⟨digits, letters, all⟩ := digits_of_decodeDigits loop
  have allReversed : ∀ digit ∈ digits.reverse, digit < 58 :=
    fun digit member => all digit (List.mem_reverse.mp member)
  have count : digits.reverse.length = encodedSize size := by
    rw [← length, ← @List.length_reverse _ block, letters, List.length_map,
      List.length_reverse]
  have block_eq : block =
      written letter 58 (encodedSize size) (Nat.ofDigits 58 digits.reverse.reverse) := by
    rw [written_eq_map, ← count, written_ofDigits (by decide) allReversed, List.map_reverse,
      ← letters, List.reverse_reverse]
  have reaches := Nat.ofDigits_lt_base_pow_length (by decide : 1 < 58) all
  rw [← List.length_reverse, count] at reaches
  rw [List.reverse_reverse] at block_eq
  rw [block_eq, decodeBlock_written nonempty small reaches] at accepted
  split at accepted
  · rename_i fits
    exact ⟨size, _, nonempty, small, fits, block_eq, (Option.some.inj accepted).symm⟩
  · cases accepted

/-- A block is decoded from its letters. -/
theorem decodeBlock_encodeBlock {block letters : Bytes} (nonempty : 0 < block.length)
    (within : block.length ≤ 8) (encoded : encodeBlock block = some letters) :
    letters.length = encodedSize block.length ∧ decodeBlock letters = some block := by
  obtain ⟨_, room, _⟩ := encodedSize_spec nonempty within
  rw [encodeBlock_eq nonempty within, Option.some.injEq] at encoded
  have fits := ofBigEndian_lt block
  subst encoded
  refine ⟨written_length, ?_⟩
  rw [decodeBlock_written nonempty within (Nat.lt_of_lt_of_le fits room), if_pos fits,
    bigEndian_ofBigEndian]

/-- The letters a block is decoded from are those it is encoded to. -/
theorem encodeBlock_decodeBlock {letters block : Bytes} (within : letters.length ≤ 11)
    (decoded : decodeBlock letters = some block) :
    0 < block.length ∧ block.length ≤ 8 ∧ letters.length = encodedSize block.length ∧
      encodeBlock block = some letters := by
  obtain ⟨size, number, nonempty, small, fits, rfl, rfl⟩ := of_decodeBlock within decoded
  have length := length_bigEndian size number
  refine ⟨by omega, by omega, by rw [written_length, length], ?_⟩
  rw [encodeBlock_eq (by omega) (by omega), length, ofBigEndian_bigEndian, Nat.mod_eq_of_lt fits]

/-! ## Strings -/

theorem encode_eq_inBlocks (data : Bytes) : encode data = inBlocks 8 encodeBlock data := by
  rw [encode]
  split
  · rename_i empty
    rw [empty, inBlocks_nil]
  · rfl

/-- The check of the length refuses nothing that the blocks accept. -/
theorem decode_eq_inBlocks (enc : Bytes) : decode enc = inBlocks 11 decodeBlock enc := by
  rw [decode]
  split
  · rename_i empty
    rw [empty, inBlocks_nil]
  change (if decodedBlockSizes (enc.length % 11) < 0 then none
    else inBlocks 11 decodeBlock enc) = _
  split
  · rename_i invalid
    have rest : 0 < enc.length % 11 := by
      refine Nat.pos_of_ne_zero fun zero => ?_
      rw [zero] at invalid
      exact absurd invalid (by decide)
    have length : (enc.drop (enc.length / 11 * 11)).length = enc.length % 11 := by
      rw [List.length_drop]
      omega
    refine (inBlocks_of_rest rest ?_).symm
    rw [decodeBlock, length, if_pos (Int.le_of_lt invalid)]
  · rfl

theorem decode_of_encode {data enc : Bytes} (encoded : encode data = some enc) :
    decode enc = some data := by
  rw [encode_eq_inBlocks] at encoded
  rw [decode_eq_inBlocks]
  refine inBlocks_inverse (by decide) (by decide) ?_ ?_ encoded
  · intro block letters full coded
    obtain ⟨count, back⟩ := decodeBlock_encodeBlock (by omega) (by omega) coded
    rw [full] at count
    exact ⟨count, back⟩
  · intro block letters nonempty short coded
    obtain ⟨count, back⟩ := decodeBlock_encodeBlock nonempty (by omega) coded
    obtain ⟨_, _, some, _, fewer⟩ := encodedSize_spec nonempty (by omega)
    exact ⟨by omega, by have := fewer short; omega, back⟩

theorem encode_of_decode {enc data : Bytes} (decoded : decode enc = some data) :
    encode data = some enc := by
  rw [decode_eq_inBlocks] at decoded
  rw [encode_eq_inBlocks]
  refine inBlocks_inverse (by decide) (by decide) ?_ ?_ decoded
  · intro letters block full coded
    obtain ⟨nonempty, within, count, back⟩ := encodeBlock_decodeBlock (by omega) coded
    refine ⟨Nat.le_antisymm within (Nat.not_lt.mp fun short => ?_), back⟩
    obtain ⟨_, _, _, _, fewer⟩ := encodedSize_spec nonempty within
    have := fewer short
    omega
  · intro letters block _ short coded
    obtain ⟨nonempty, within, count, back⟩ := encodeBlock_decodeBlock (by omega) coded
    refine ⟨nonempty, Nat.lt_of_le_of_ne within fun full => ?_, back⟩
    rw [count, full] at short
    exact absurd short (by decide)

/-- No byte string makes the encoder write outside its result. -/
theorem encode_total (data : Bytes) : ∃ enc, encode data = some enc := by
  obtain ⟨enc, coded⟩ := inBlocks_total (by decide) (fun block nonempty within =>
    ⟨_, encodeBlock_eq nonempty within⟩) data
  exact ⟨enc, (encode_eq_inBlocks data).trans coded⟩

/-- The letters that were decoded tell how many bytes they became. -/
theorem length_of_decode {enc data : Bytes} (decoded : decode enc = some data) :
    data.length = enc.length / 11 * 8 + (decodedBlockSizes (enc.length % 11)).toNat := by
  rw [decode_eq_inBlocks] at decoded
  have full : (decodedBlockSizes 11).toNat = 8 := by decide
  have length := @length_inBlocks _ _ 11 _ (fun count => (decodedBlockSizes count).toNat)
    (by decide) (by decide) ?_ _ _ decoded
  · rw [full] at length
    exact length
  intro letters block _ within coded
  obtain ⟨nonempty, fits, count, _⟩ := encodeBlock_decodeBlock within coded
  obtain ⟨size, _⟩ := encodedSize_spec nonempty fits
  rw [count, size]
  rfl

theorem letter_lt (digit : Nat) : (letter digit).toNat < 128 := by
  rcases Nat.lt_or_ge digit 58 with small | large
  · have table : ∀ digit, digit < 58 → (letter digit).toNat < 128 := by decide
    exact table digit small
  · have behind : alphabet.length ≤ digit := large
    rw [letter, List.getD_eq_getElem?_getD, List.getElem?_eq_none behind]
    decide

/-- The letters are ASCII. -/
theorem ascii_of_encode {data enc : Bytes} (encoded : encode data = some enc) :
    ∀ byte ∈ enc, byte.toNat < 128 := by
  rw [encode_eq_inBlocks] at encoded
  refine forall_mem_inBlocks (by decide) ?_ encoded
  intro block letters nonempty within coded byte member
  rw [encodeBlock_eq nonempty within, Option.some.injEq] at coded
  rw [← coded, written_eq_map] at member
  obtain ⟨digit, _, rfl⟩ := List.mem_map.mp member
  exact letter_lt digit

/-- Every byte string has one string of letters, and the decoder accepts that one for it and no
other. -/
theorem decode_accepts_encodings (data : Bytes) :
    ∃ enc, encode data = some enc ∧ ∀ enc', decode enc' = some data ↔ enc' = enc := by
  obtain ⟨enc, encoded⟩ := encode_total data
  refine ⟨enc, encoded, fun enc' => ⟨fun decoded => ?_, fun same => ?_⟩⟩
  · have encoded' := encode_of_decode decoded
    rw [encoded, Option.some.injEq] at encoded'
    exact encoded'.symm
  · rw [same]
    exact decode_of_encode encoded

/-! ## The assertions -/

/-- A function on blocks whose assertion on the size of the block may fail. -/
def asserted (limit : Nat) (code failed : Bytes → Option Bytes) (block : Bytes) : Option Bytes :=
  if 1 ≤ block.length ∧ block.length ≤ limit then code block else failed block

/-- The assertions on sizes hold at every call, so that it does not matter what is done where they
fail: those of `encode_block` and `uint_8be_to_64`, of `decode_block`, of `decoded_block_sizes` for
the last block, and of `uint_64_to_8be` for the size of a decoded block. -/
theorem asserts_hold (failed : Bytes → Option Bytes) (data enc : Bytes) :
    inBlocks fullBlockSize (asserted fullBlockSize encodeBlock failed) data =
        inBlocks fullBlockSize encodeBlock data ∧
      inBlocks fullEncodedBlockSize (asserted fullEncodedBlockSize decodeBlock failed) enc =
        inBlocks fullEncodedBlockSize decodeBlock enc ∧
      enc.length % fullEncodedBlockSize ≤ fullEncodedBlockSize ∧
      ∀ block : Bytes, block.length ≤ fullEncodedBlockSize → 0 < decodedBlockSizes block.length →
        1 ≤ (decodedBlockSizes block.length).toNat ∧
          (decodedBlockSizes block.length).toNat ≤ 8 := by
  refine ⟨?_, ?_, Nat.le_of_lt (Nat.mod_lt _ (by decide)), ?_⟩
  · exact inBlocks_congr (by decide) (fun _ nonempty within => if_pos ⟨nonempty, within⟩) data
  · exact inBlocks_congr (by decide) (fun _ nonempty within => if_pos ⟨nonempty, within⟩) enc
  · intro block within known
    obtain ⟨size, nonempty, small, decoded, _⟩ := encodedSize_decodedBlockSizes within known
    rw [decoded, Int.toNat_natCast]
    exact ⟨nonempty, small⟩

end Hypepool.Cryptonote.Base58
