import Hypepool.Net.Runtime
import Mathlib.Algebra.Order.Ring.Nat

/-!
# `varint.h`

Seven bits of an unsigned integer in each byte, the lowest first, with the high bit set on every
byte but the last.  The reader stops where the input ends, refuses what does not fit its type, and
refuses a last byte that is zero.

* `readVarint_writeVarint`: what is written is read back, whatever follows.
* `readVarint_cases`: a read that is not refused either took exactly what the writer writes, or ran
  into the end of the input.
* `readVarint_accepts_iff`: of the numbers that do not end with the input, exactly those the writer
  writes are accepted.
-/

namespace Hypepool.Cryptonote

/-- The unsigned integral types the templates are used at. -/
class Unsigned (T : Type) where
  /-- `sizeof(T)`. -/
  size : Nat
  toNat : T → Nat
  ofNat : Nat → T
  toNat_lt : ∀ v, toNat v < 2 ^ (8 * size)
  ofNat_toNat : ∀ v, ofNat (toNat v) = v

/-- `std::numeric_limits<T>::digits`. -/
def Unsigned.digits (T : Type) [Unsigned T] : Nat := 8 * Unsigned.size T

instance : Unsigned UInt8 where
  size := 1
  toNat := UInt8.toNat
  ofNat := UInt8.ofNat
  toNat_lt := UInt8.toNat_lt
  ofNat_toNat _ := UInt8.ofNat_toNat

instance : Unsigned UInt32 where
  size := 4
  toNat := UInt32.toNat
  ofNat := UInt32.ofNat
  toNat_lt := UInt32.toNat_lt
  ofNat_toNat _ := UInt32.ofNat_toNat

instance : Unsigned UInt64 where
  size := 8
  toNat := UInt64.toNat
  ofNat := UInt64.ofNat
  toNat_lt := UInt64.toNat_lt
  ofNat_toNat _ := UInt64.ofNat_toNat

/-- `write_varint`. -/
def writeVarint (i : Nat) : Bytes :=
  if 0x80 ≤ i then ((i.toUInt8 &&& 0x7f) ||| 0x80) :: writeVarint (i >>> 7) else [i.toUInt8]
termination_by i
decreasing_by
  rw [Nat.shiftRight_eq_div_pow]
  omega

/-- What `read_varint` returns, what it leaves in `write`, and the input behind what it read. -/
structure VarintRead where
  read : Int
  write : Nat
  rest : Bytes
  deriving DecidableEq

def evarintOverflow : Int := -1

def evarintRepresent : Int := -2

/-- The loop of `read_varint<bits>`, for a `write` of as many bits. -/
def readVarintFrom (bits shift read write : Nat) : Bytes → VarintRead
  | [] => ⟨read, write, []⟩
  | byte :: rest =>
      if bits ≤ shift + 7 ∧ 1 <<< (bits - shift) ≤ byte.toNat then ⟨evarintOverflow, write, rest⟩
      else if byte = 0 ∧ shift ≠ 0 then ⟨evarintRepresent, write, rest⟩
      else
        let write := write ||| (((byte &&& 0x7f).toNat <<< shift) % 2 ^ bits)
        if byte &&& 0x80 = 0 then ⟨(read + 1 : Nat), write, rest⟩
        else readVarintFrom bits (shift + 7) (read + 1) write rest

/-- `read_varint<bits>`. -/
def readVarint (bits : Nat) (input : Bytes) : VarintRead := readVarintFrom bits 0 0 0 input

/-! ## One byte -/

theorem toNat_low (byte : UInt8) : (byte &&& 0x7f).toNat = byte.toNat % 128 := by
  rw [UInt8.toNat_and]
  exact Nat.and_two_pow_sub_one_eq_mod _ 7

theorem high_eq_zero_iff (byte : UInt8) : byte &&& 0x80 = 0 ↔ byte.toNat < 128 := by
  have bits : ∀ n, n < 256 → (n &&& 128 = 0 ↔ n < 128) := by decide +kernel
  rw [← UInt8.toNat_inj, UInt8.toNat_and]
  exact bits _ byte.toNat_lt

/-- The byte of seven bits that more follow. -/
theorem toNat_continued (i : Nat) : ((i.toUInt8 &&& 0x7f) ||| 0x80).toNat = i % 128 + 128 := by
  have low : (i.toUInt8 &&& 0x7f).toNat = i % 128 := by
    rw [toNat_low, UInt8.toNat_ofNat']
    omega
  have small : i % 128 < 2 ^ 7 := Nat.mod_lt _ (by decide)
  rw [UInt8.toNat_or, low, Nat.or_comm]
  exact (Nat.two_pow_add_eq_or_of_lt small 1).symm.trans (Nat.add_comm _ _)

/-- Bits put in above those there are. -/
theorem or_payload {bits shift acc payload : Nat} (below : acc < 2 ^ shift)
    (fits : payload * 2 ^ shift < 2 ^ bits) :
    acc ||| ((payload <<< shift) % 2 ^ bits) = acc + payload * 2 ^ shift := by
  rw [Nat.shiftLeft_eq, Nat.mod_eq_of_lt fits, Nat.or_comm, Nat.mul_comm,
    ← Nat.two_pow_add_eq_or_of_lt below, Nat.add_comm]

theorem writeVarint_of_lt {i : Nat} (small : i < 128) : writeVarint i = [i.toUInt8] := by
  rw [writeVarint, if_neg (Nat.not_le.mpr small)]

theorem writeVarint_of_le {i : Nat} (large : 128 ≤ i) :
    writeVarint i = ((i.toUInt8 &&& 0x7f) ||| 0x80) :: writeVarint (i / 128) := by
  rw [writeVarint, if_pos large, Nat.shiftRight_eq_div_pow]

/-! ## Writing and reading back -/

/-- A byte that leaves room for the value is not refused. -/
theorem not_overflow {bits shift value : Nat} {byte : UInt8} (room : value * 2 ^ shift < 2 ^ bits)
    (here : byte.toNat = value ∨ 128 ≤ value) :
    ¬ (bits ≤ shift + 7 ∧ 1 <<< (bits - shift) ≤ byte.toNat) := by
  rintro ⟨last, above⟩
  rw [Nat.one_shiftLeft] at above
  rcases here with same | large
  · rw [same] at above
    have wide := Nat.mul_le_mul_right (2 ^ shift) above
    rw [← Nat.pow_add] at wide
    have : 2 ^ bits ≤ 2 ^ (bits - shift + shift) :=
      Nat.pow_le_pow_right (by decide) (by omega)
    omega
  · have wide := Nat.mul_le_mul_right (2 ^ shift) large
    have : 2 ^ bits ≤ 2 ^ (7 + shift) := Nat.pow_le_pow_right (by decide) (by omega)
    rw [Nat.pow_add] at this
    omega

/-- The loop, at a place where `acc` holds what was read before. -/
theorem readVarintFrom_writeVarint {bits shift read acc value : Nat} {rest : Bytes}
    (below : acc < 2 ^ shift) (room : value * 2 ^ shift < 2 ^ bits)
    (shortest : shift = 0 ∨ 0 < value) :
    readVarintFrom bits shift read acc (writeVarint value ++ rest) =
      ⟨(read + (writeVarint value).length : Nat), acc + value * 2 ^ shift, rest⟩ := by
  induction value using Nat.strongRecOn generalizing shift read acc with
  | ind value ih =>
      rcases Nat.lt_or_ge value 128 with small | large
      · have byte : value.toUInt8.toNat = value := by
          rw [UInt8.toNat_ofNat']
          omega
        have nonzero : ¬ (value.toUInt8 = 0 ∧ shift ≠ 0) := by
          rintro ⟨zero, later⟩
          rw [zero] at byte
          have : value = 0 := byte.symm
          omega
        have last : value.toUInt8 &&& 0x80 = 0 := by
          rw [high_eq_zero_iff, byte]
          exact small
        rw [writeVarint_of_lt small, List.singleton_append, readVarintFrom,
          if_neg (not_overflow room (Or.inl byte)), if_neg nonzero, if_pos last, toNat_low, byte,
          Nat.mod_eq_of_lt small, or_payload below room]
        rfl
      · obtain ⟨byte, isByte⟩ : ∃ byte, byte = (value.toUInt8 &&& 0x7f) ||| 0x80 := ⟨_, rfl⟩
        have toNat : byte.toNat = value % 128 + 128 := by rw [isByte, toNat_continued]
        have nonzero : ¬ (byte = 0 ∧ shift ≠ 0) := by
          rintro ⟨zero, _⟩
          rw [zero] at toNat
          have : 0 = value % 128 + 128 := toNat
          omega
        have more : ¬ byte &&& 0x80 = 0 := by
          rw [high_eq_zero_iff, toNat]
          omega
        have payload : (byte &&& 0x7f).toNat = value % 128 := by
          rw [toNat_low, toNat]
          omega
        have split : value * 2 ^ shift =
            value % 128 * 2 ^ shift + value / 128 * 2 ^ (shift + 7) := by
          have whole : value = value % 128 + value / 128 * 128 := by omega
          have power : 2 ^ (shift + 7) = 128 * 2 ^ shift := by rw [Nat.pow_add, Nat.mul_comm]
          rw [power, ← Nat.mul_assoc, ← Nat.add_mul, ← whole]
        have next : acc + value % 128 * 2 ^ shift < 2 ^ (shift + 7) := by
          have digit : value % 128 + 1 ≤ 128 := Nat.mod_lt _ (by decide)
          have wide := Nat.mul_le_mul_right (2 ^ shift) digit
          rw [Nat.pow_add, Nat.mul_comm (2 ^ shift)]
          rw [Nat.add_mul] at wide
          omega
        rw [writeVarint_of_le large, ← isByte, List.cons_append, readVarintFrom,
          if_neg (not_overflow room (Or.inr large)), if_neg nonzero, if_neg more, payload,
          or_payload below (by omega),
          ih (value / 128) (by omega) next (by omega) (Or.inr (by omega)), split]
        simp only [List.length_cons, VarintRead.mk.injEq, and_true]
        omega

/-- What is written is read back, and what follows is left. -/
theorem readVarint_writeVarint {bits value : Nat} (fits : value < 2 ^ bits) (rest : Bytes) :
    readVarint bits (writeVarint value ++ rest) = ⟨(writeVarint value).length, value, rest⟩ := by
  rw [readVarint, readVarintFrom_writeVarint (by decide) (by omega) (Or.inl rfl)]
  simp

theorem writeVarint_length_pos (value : Nat) : 0 < (writeVarint value).length := by
  rw [writeVarint]
  split <;> simp

theorem length_writeVarint_le {value size : Nat} (fits : value < 128 ^ (size + 1)) :
    (writeVarint value).length ≤ size + 1 := by
  induction size generalizing value with
  | zero =>
      rw [writeVarint_of_lt (by omega)]
      exact Nat.le_refl 1
  | succ size ih =>
      rcases Nat.lt_or_ge value 128 with small | large
      · rw [writeVarint_of_lt small, List.length_singleton]
        omega
      · have less : value / 128 < 128 ^ (size + 1) :=
          Nat.div_lt_of_lt_mul (by rwa [Nat.mul_comm, ← Nat.pow_succ])
        have rest := ih less
        rw [writeVarint_of_le large, List.length_cons]
        omega

/-- A read goes on from where it ended, whatever it returned. -/
theorem readVarintFrom_suffix {bits shift read acc : Nat} {input : Bytes} :
    (readVarintFrom bits shift read acc input).rest <:+ input := by
  induction input generalizing shift read acc with
  | nil => exact List.suffix_rfl
  | cons byte input ih =>
      have behind : input <:+ byte :: input := List.suffix_cons byte input
      rw [readVarintFrom]
      split
      · exact behind
      split
      · exact behind
      dsimp only
      split
      · exact behind
      · exact ih.trans behind

/-! ## What a read accepts -/

/-- A byte that is not refused leaves its seven bits within the type, and more of them only when
the type has room. -/
theorem payload_fits {bits shift : Nat} {byte : UInt8} (within : shift ≤ bits)
    (accepted : ¬ (bits ≤ shift + 7 ∧ 1 <<< (bits - shift) ≤ byte.toNat)) :
    byte.toNat % 128 * 2 ^ shift < 2 ^ bits ∧ (128 ≤ byte.toNat → shift + 7 < bits) := by
  have power : 2 ^ bits = 2 ^ (bits - shift) * 2 ^ shift := by
    rw [← Nat.pow_add, Nat.sub_add_cancel within]
  have positive : 0 < 2 ^ shift := Nat.two_pow_pos shift
  rw [Nat.one_shiftLeft] at accepted
  rcases Nat.lt_or_ge (shift + 7) bits with room | last
  · refine ⟨?_, fun _ => room⟩
    have wide : 2 ^ 7 ≤ 2 ^ (bits - shift) := Nat.pow_le_pow_right (by decide) (by omega)
    have digit : byte.toNat % 128 < 128 := Nat.mod_lt _ (by decide)
    rw [power]
    exact Nat.mul_lt_mul_of_pos_right (by omega) positive
  · have small : byte.toNat < 2 ^ (bits - shift) := by omega
    have narrow : 2 ^ (bits - shift) ≤ 2 ^ 7 := Nat.pow_le_pow_right (by decide) (by omega)
    refine ⟨?_, by omega⟩
    rw [power]
    exact Nat.mul_lt_mul_of_pos_right (by omega) positive

/-- A value below a continued byte still fits. -/
theorem continued_fits {bits shift value digit : Nat} (within : shift + 7 < bits)
    (fits : value * 2 ^ (shift + 7) < 2 ^ bits) (small : digit < 128) :
    (digit + value * 128) * 2 ^ shift < 2 ^ bits := by
  have power : 2 ^ bits = 2 ^ (bits - (shift + 7)) * 2 ^ (shift + 7) := by
    rw [← Nat.pow_add, Nat.sub_add_cancel (Nat.le_of_lt within)]
  rw [power] at fits
  have below := Nat.lt_of_mul_lt_mul_right fits
  have wide := Nat.mul_le_mul_right 128 (Nat.succ_le_of_lt below)
  have split : 2 ^ bits = 2 ^ (bits - (shift + 7)) * 128 * 2 ^ shift := by
    rw [power, Nat.pow_add 2 shift 7, Nat.mul_comm (2 ^ shift), ← Nat.mul_assoc]
  rw [split]
  refine Nat.mul_lt_mul_of_pos_right ?_ (Nat.two_pow_pos shift)
  omega

/-- A read from `shift` on that is not refused: the bytes are those of a value that fits, or all of
them are continued. -/
theorem readVarintFrom_cases {bits shift read acc : Nat} {input : Bytes} (within : shift ≤ bits)
    (accepted : 0 ≤ (readVarintFrom bits shift read acc input).read) :
    (∃ value rest, input = writeVarint value ++ rest ∧ value * 2 ^ shift < 2 ^ bits ∧
      (shift = 0 ∨ 0 < value)) ∨
      (readVarintFrom bits shift read acc input).read = read + input.length ∧
        (readVarintFrom bits shift read acc input).rest = [] ∧
        ∀ byte ∈ input, 128 ≤ byte.toNat := by
  induction input generalizing shift read acc with
  | nil => exact Or.inr ⟨by simp [readVarintFrom], rfl, List.forall_mem_nil _⟩
  | cons byte input ih =>
      rw [readVarintFrom] at accepted ⊢
      split at accepted
      · exact absurd accepted (by decide : ¬ 0 ≤ evarintOverflow)
      rename_i unrefused
      rw [if_neg unrefused]
      split at accepted
      · exact absurd accepted (by decide : ¬ 0 ≤ evarintRepresent)
      rename_i canonical
      rw [if_neg canonical]
      obtain ⟨fits, more⟩ := payload_fits within unrefused
      have whole : byte.toNat.toUInt8 = byte := UInt8.ofNat_toNat
      rcases Nat.lt_or_ge byte.toNat 128 with small | large
      · rw [Nat.mod_eq_of_lt small] at fits
        refine Or.inl ⟨byte.toNat, input, ?_, fits, ?_⟩
        · rw [writeVarint_of_lt small, whole]
          rfl
        · rcases Nat.eq_zero_or_pos shift with first | later
          · exact Or.inl first
          · refine Or.inr (Nat.pos_of_ne_zero fun zero => canonical ⟨?_, by omega⟩)
            rw [← whole, zero]
            rfl
      · have high : ¬ byte &&& 0x80 = 0 := by
          rw [high_eq_zero_iff]
          omega
        rw [if_neg high] at accepted ⊢
        have room := more large
        rcases ih (Nat.le_of_lt room) accepted with ⟨value, rest, rfl, fitsValue, nonzero⟩ | ended
        · have positive : 0 < value := by omega
          have digit : byte.toNat % 128 < 128 := Nat.mod_lt _ (by decide)
          refine Or.inl ⟨byte.toNat % 128 + value * 128, rest, ?_,
            continued_fits room fitsValue digit, Or.inr (by omega)⟩
          have back : ((byte.toNat % 128 + value * 128).toUInt8 &&& 0x7f) ||| 0x80 = byte := by
            rw [← UInt8.toNat_inj, toNat_continued]
            have bound := byte.toNat_lt
            omega
          have quotient : (byte.toNat % 128 + value * 128) / 128 = value := by omega
          have longer : 128 ≤ byte.toNat % 128 + value * 128 := by omega
          rw [writeVarint_of_le longer, back, quotient]
          rfl
        · refine Or.inr ⟨?_, ended.2.1, List.forall_mem_cons.mpr ⟨large, ended.2.2⟩⟩
          rw [ended.1, List.length_cons]
          omega

/-- A read that is not refused took exactly what the writer writes for the value it leaves, or ran
into the end of the input. -/
theorem readVarint_cases {bits : Nat} {input : Bytes}
    (accepted : 0 ≤ (readVarint bits input).read) :
    (∃ value rest, value < 2 ^ bits ∧ input = writeVarint value ++ rest ∧
      readVarint bits input = ⟨(writeVarint value).length, value, rest⟩) ∨
      (readVarint bits input).read = input.length ∧ (readVarint bits input).rest = [] ∧
        ∀ byte ∈ input, 128 ≤ byte.toNat := by
  rcases readVarintFrom_cases (Nat.zero_le bits) accepted with ⟨value, rest, rfl, fits, _⟩ | ended
  · rw [Nat.pow_zero, Nat.mul_one] at fits
    exact Or.inl ⟨value, rest, fits, rfl, readVarint_writeVarint fits rest⟩
  · refine Or.inr ⟨?_, ended.2⟩
    rw [readVarint, ended.1]
    simp

/-- Bytes that are all continued: each has to leave room for another one. -/
theorem readVarintFrom_continued {bits shift read acc : Nat} {input : Bytes}
    (continued : ∀ byte ∈ input, 128 ≤ byte.toNat) :
    0 ≤ (readVarintFrom bits shift read acc input).read ↔
      input = [] ∨ shift + 7 * input.length < bits := by
  induction input generalizing shift read acc with
  | nil => exact iff_of_true (Int.natCast_nonneg read) (Or.inl rfl)
  | cons byte input ih =>
      obtain ⟨large, later⟩ := List.forall_mem_cons.mp continued
      have refused : bits ≤ shift + 7 ∧ 1 <<< (bits - shift) ≤ byte.toNat ↔ bits ≤ shift + 7 := by
        refine ⟨And.left, fun last => ⟨last, Nat.le_trans ?_ large⟩⟩
        rw [Nat.one_shiftLeft]
        exact Nat.pow_le_pow_right (by decide) (by omega : bits - shift ≤ 7)
      have nonzero : ¬ (byte = 0 ∧ shift ≠ 0) := by
        rintro ⟨rfl, -⟩
        exact absurd large (by decide)
      have high : ¬ byte &&& 0x80 = 0 := by
        rw [high_eq_zero_iff]
        omega
      rw [readVarintFrom, List.length_cons]
      simp only [refused, if_neg nonzero, if_neg high, reduceCtorEq, false_or]
      split
      · rename_i last
        exact iff_of_false (by decide : ¬ 0 ≤ evarintOverflow) (by omega)
      · rename_i room
        rw [ih later]
        constructor
        · rintro (rfl | fits)
          · exact Nat.lt_of_not_le room
          · omega
        · exact fun fits => Or.inr (by omega)

/-- **One encoding for each value.**  A read is not refused exactly when the input begins with what
the writer writes for a value of the type, or ends within a number that has room for another byte.
In the first case it returns the number of bytes, this value and what follows. -/
theorem readVarint_accepts_iff (bits : Nat) (input : Bytes) :
    (0 ≤ (readVarint bits input).read ↔
      (∃ value rest, value < 2 ^ bits ∧ input = writeVarint value ++ rest) ∨
        (∀ byte ∈ input, 128 ≤ byte.toNat) ∧ (input = [] ∨ 7 * input.length < bits)) ∧
      ∀ value rest, value < 2 ^ bits → input = writeVarint value ++ rest →
        readVarint bits input = ⟨(writeVarint value).length, value, rest⟩ := by
  have unfinished (continued : ∀ byte ∈ input, 128 ≤ byte.toNat) :
      0 ≤ (readVarint bits input).read ↔ input = [] ∨ 7 * input.length < bits := by
    rw [readVarint, readVarintFrom_continued continued, Nat.zero_add]
  refine ⟨⟨fun accepted => ?_, ?_⟩, ?_⟩
  · rcases readVarint_cases accepted with ⟨value, rest, fits, begins, _⟩ | ⟨_, _, continued⟩
    · exact Or.inl ⟨value, rest, fits, begins⟩
    · exact Or.inr ⟨continued, (unfinished continued).mp accepted⟩
  · rintro (⟨value, rest, fits, rfl⟩ | ⟨continued, room⟩)
    · rw [readVarint_writeVarint fits rest]
      exact Int.natCast_nonneg _
    · exact (unfinished continued).mpr room
  · rintro value rest fits rfl
    exact readVarint_writeVarint fits rest

/-- Three hundred and a byte behind it; the overlong encoding of one; a number without its end. -/
theorem readVarint_accepts_iff_three_hundred :
    readVarint 64 [0xac, 0x02, 0x05] = ⟨2, 300, [0x05]⟩ ∧
      (¬ ∃ value rest, value < 2 ^ 64 ∧ ([0x81, 0x00] : Bytes) = writeVarint value ++ rest) ∧
      0 ≤ (readVarint 64 [0xac]).read := by
  refine ⟨?_, fun encoded => ?_, ?_⟩
  · have written : writeVarint 300 = [0xac, 0x02] := by
      rw [writeVarint_of_le (by decide), writeVarint_of_lt (by decide)]
      decide
    have read := (readVarint_accepts_iff 64 [0xac, 0x02, 0x05]).2 300 [0x05] (by decide)
      (by rw [written]; rfl)
    rwa [written] at read
  · have accepted := (readVarint_accepts_iff 64 [0x81, 0x00]).1.mpr (Or.inl encoded)
    exact absurd accepted (by decide)
  · exact (readVarint_accepts_iff 64 [0xac]).1.mpr (Or.inr
      ⟨List.forall_mem_singleton.mpr (by decide), Or.inr (by decide)⟩)

end Hypepool.Cryptonote
