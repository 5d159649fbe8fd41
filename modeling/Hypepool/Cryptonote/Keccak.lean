import Hypepool.Base.BigEndian
import Hypepool.Base.BlockCode
import Hypepool.Cryptonote.BinaryArchive
import Mathlib.Data.List.GetD

/-!
# `keccak.c`, `hash.c`: the hash of the format

`cn_fast_hash` runs `keccak1600` into a state of 25 words and takes its first 32 bytes.  The input
is absorbed in blocks of 136 bytes; what is left is padded in a buffer of its own.

* `keccak1600_sponge`: it is the sponge over the padded input, and the padding can be taken off.
-/

namespace Hypepool.Cryptonote

open Base

abbrev Hash := Blob 32

abbrev PublicKey := Blob 32

def hashSize : Nat := 32

def hashDataArea : Nat := 136

def keccakRounds : Nat := 24

/-- `ROTL64(x, y)`. -/
def rotl64 (x : UInt64) (y : Nat) : UInt64 :=
  (x <<< UInt64.ofNat y) ||| (x >>> UInt64.ofNat (64 - y))

def keccakfRndc : List UInt64 := [
  0x0000000000000001, 0x0000000000008082, 0x800000000000808a,
  0x8000000080008000, 0x000000000000808b, 0x0000000080000001,
  0x8000000080008081, 0x8000000000008009, 0x000000000000008a,
  0x0000000000000088, 0x0000000080008009, 0x000000008000000a,
  0x000000008000808b, 0x800000000000008b, 0x8000000000008089,
  0x8000000000008003, 0x8000000000008002, 0x8000000000000080,
  0x000000000000800a, 0x800000008000000a, 0x8000000080008081,
  0x8000000000008080, 0x0000000080000001, 0x8000000080008008]

def keccakfRotc : List Nat := [
  1, 3, 6, 10, 15, 21, 28, 36, 45, 55, 2, 14, 27, 41, 56, 8, 25, 43, 62, 18, 39, 61, 20, 44]

def keccakfPiln : List Nat := [
  10, 7, 11, 17, 18, 3, 5, 16, 8, 21, 24, 4, 15, 23, 19, 13, 12, 2, 20, 14, 22, 9, 6, 1]

/-- `st[i]` of an array of words. -/
def word (st : List UInt64) (i : Nat) : UInt64 := st.getD i 0

/-- "Theta". -/
def theta (st : List UInt64) : List UInt64 :=
  let bc := (List.range 5).map fun i =>
    word st i ^^^ word st (i + 5) ^^^ word st (i + 10) ^^^ word st (i + 15) ^^^ word st (i + 20)
  (List.range 5).foldl (fun st i =>
    let t := word bc ((i + 4) % 5) ^^^ rotl64 (word bc ((i + 1) % 5)) 1
    [0, 5, 10, 15, 20].foldl (fun st j => st.set (j + i) (word st (j + i) ^^^ t)) st) st

/-- "Rho Pi". -/
def rhoPi (st : List UInt64) : List UInt64 :=
  ((List.range 24).foldl (fun (st, t) i =>
    let j := keccakfPiln.getD i 0
    (st.set j (rotl64 t (keccakfRotc.getD i 0)), word st j)) (st, word st 1)).1

/-- "Chi". -/
def chi (st : List UInt64) : List UInt64 :=
  [0, 5, 10, 15, 20].foldl (fun st j =>
    let bc := (List.range 5).map fun i => word st (j + i)
    (List.range 5).foldl (fun st i =>
      st.set (j + i) (word st (j + i) ^^^ ((~~~ word bc ((i + 1) % 5)) &&& word bc ((i + 2) % 5))))
      st) st

/-- "Iota". -/
def iota (round : Nat) (st : List UInt64) : List UInt64 :=
  st.set 0 (word st 0 ^^^ word keccakfRndc round)

/-- `keccakf`. -/
def keccakf (st : List UInt64) (rounds : Nat) : List UInt64 :=
  (List.range rounds).foldl (fun st round => iota round (chi (rhoPi (theta st)))) st

/-- `((uint64_t *) in)[i]` on a host that stores the lowest byte first. -/
def loadWord (bytes : Bytes) (i : Nat) : UInt64 :=
  UInt64.ofNat (ofBigEndian ((bytes.drop (8 * i)).take 8).reverse)

/-- `st[i] ^= ((uint64_t *) in)[i]` for the words of a block. -/
def absorb (rsizw : Nat) (st : List UInt64) (block : Bytes) : List UInt64 :=
  (List.range rsizw).foldl (fun st i => st.set i (word st i ^^^ loadWord block i)) st

/-- "last block and padding". -/
def padLast (rsiz : Nat) (rest : Bytes) : Bytes :=
  let temp := rest ++ 1 :: List.replicate (rsiz - (rest.length + 1)) 0
  temp.set (rsiz - 1) (temp.getD (rsiz - 1) 0 ||| 0x80)

/-- What one block does to the state. -/
def absorbBlock (rsiz : Nat) (st : List UInt64) (block : Bytes) : List UInt64 :=
  keccakf (absorb (rsiz / 8) st block) keccakRounds

/-- The state of `keccak` when it is copied out: the loop over the full blocks, then the last. -/
@[irreducible] def keccakState (rsiz : Nat) (input : Bytes) : List UInt64 :=
  let st := (List.range (input.length / rsiz)).foldl (fun st k =>
    absorbBlock rsiz st ((input.drop (k * rsiz)).take rsiz)) (List.replicate 25 0)
  absorbBlock rsiz st (padLast rsiz (input.drop (input.length / rsiz * rsiz)))

/-- The bytes of an array of words, lowest byte first. -/
def storeWords (st : List UInt64) : Bytes := st.flatMap fun w => (bigEndian 8 w.toNat).reverse

/-- `keccak`. -/
def keccak (input : Bytes) (mdlen : Nat) : Bytes :=
  let rsiz := if mdlen = 200 then hashDataArea else 200 - 2 * mdlen
  (storeWords (keccakState rsiz input)).take mdlen

/-- `keccak1600`, `hash_process`. -/
def keccak1600 (input : Bytes) : Bytes := keccak input 200

/-! ## The state keeps its length -/

section Length

variable {st : List UInt64} {rsiz rounds : Nat}

theorem length_foldl {f : List UInt64 → Nat → List UInt64} {places : List Nat}
    (keeps : ∀ st i, (f st i).length = st.length) : (places.foldl f st).length = st.length := by
  induction places generalizing st with
  | nil => rfl
  | cons i places ih => rw [List.foldl_cons, ih, keeps]

theorem length_rhoPi : (rhoPi st).length = st.length := by
  obtain ⟨places, isPlaces⟩ : ∃ places, places = List.range 24 := ⟨_, rfl⟩
  obtain ⟨t, isT⟩ : ∃ t, t = word st 1 := ⟨_, rfl⟩
  rw [rhoPi, ← isPlaces, ← isT]
  clear isPlaces isT
  induction places generalizing st t with
  | nil => rfl
  | cons i places ih => rw [List.foldl_cons, ih, List.length_set]

theorem length_theta : (theta st).length = st.length :=
  length_foldl fun _ _ => length_foldl fun _ _ => List.length_set

theorem length_chi : (chi st).length = st.length :=
  length_foldl fun _ _ => length_foldl fun _ _ => List.length_set

theorem length_keccakf : (keccakf st rounds).length = st.length := by
  refine length_foldl fun st round => ?_
  rw [iota, List.length_set, length_chi, length_rhoPi, length_theta]

theorem length_absorbBlock {block : Bytes} : (absorbBlock rsiz st block).length = st.length := by
  rw [absorbBlock, length_keccakf]
  exact length_foldl fun _ _ => List.length_set

theorem length_keccakState {input : Bytes} : (keccakState rsiz input).length = 25 := by
  unfold keccakState
  exact length_absorbBlock.trans <|
    (length_foldl fun _ _ => length_absorbBlock).trans List.length_replicate

theorem length_storeWords : (storeWords st).length = 8 * st.length := by
  induction st with
  | nil => rfl
  | cons w st ih =>
      have store : storeWords (w :: st) = (bigEndian 8 w.toNat).reverse ++ storeWords st := rfl
      rw [store, List.length_append, ih, List.length_reverse, length_bigEndian, List.length_cons]
      omega

theorem length_keccak1600 (input : Bytes) : (keccak1600 input).length = 200 := by
  rw [keccak1600, keccak, List.length_take, length_storeWords, length_keccakState]
  rfl

end Length

/-- `cn_fast_hash`. -/
def cnFastHash (data : Bytes) : Hash :=
  ⟨(keccak1600 data).take hashSize, by rw [List.length_take, length_keccak1600]; rfl⟩

/-! ## The sponge -/

/-- A one, zeros, and a bit at the end of the last byte. -/
def padding : (length : Nat) → Bytes
  | 0 => []
  | 1 => [0x81]
  | zeros + 2 => 1 :: List.replicate zeros 0 ++ [0x80]

/-- The input with what fills up its last block. -/
def padded (rsiz : Nat) (input : Bytes) : Bytes :=
  input ++ padding (rsiz - input.length % rsiz)

section Sponge

variable {rsiz : Nat}

@[simp] theorem length_padding (length : Nat) : (padding length).length = length := by
  match length with
  | 0 => rfl
  | 1 => rfl
  | zeros + 2 => simp [padding]

/-- The buffer of the last block holds its bytes and the padding. -/
theorem padLast_eq {rest : Bytes} (short : rest.length < rsiz) :
    padLast rsiz rest = rest ++ padding (rsiz - rest.length) := by
  obtain ⟨more, rfl⟩ := Nat.exists_eq_add_of_lt short
  have zeros : rest.length + more + 1 - (rest.length + 1) = more := by omega
  have last : rest.length + more + 1 - 1 = rest.length + more := by omega
  have length : rest.length + more + 1 - rest.length = more + 1 := by omega
  rw [padLast, zeros, last, length, List.getD_append_right _ _ _ _ (Nat.le_add_right _ _),
    List.set_append_right _ _ (Nat.le_add_right _ _), Nat.add_sub_cancel_left]
  cases more with
  | zero => rfl
  | succ more =>
      have tail : (List.replicate (more + 1) (0 : UInt8)) = List.replicate more 0 ++ [0] :=
        List.replicate_succ'
      simp [padding, tail]

/-- Zeros behind a one end where the one stands. -/
theorem append_one_zeros_inj {xs ys : Bytes} {m n : Nat}
    (same : List.replicate m 0 ++ 1 :: xs = List.replicate n 0 ++ 1 :: ys) : xs = ys := by
  induction m generalizing n with
  | zero =>
      cases n with
      | zero => exact (List.cons.inj same).2
      | succ n => exact absurd (List.cons.inj same).1 (by decide)
  | succ m ih =>
      cases n with
      | zero => exact absurd (List.cons.inj same).1 (by decide)
      | succ n => exact ih (List.cons.inj same).2

theorem append_padding_inj {xs ys : Bytes} {m n : Nat}
    (same : xs ++ padding (m + 1) = ys ++ padding (n + 1)) : xs = ys := by
  have reversed := congrArg List.reverse same
  cases m with
  | zero =>
      cases n with
      | zero => exact List.append_cancel_right same
      | succ n => simp [padding] at reversed
  | succ m =>
      cases n with
      | zero => simp [padding] at reversed
      | succ n =>
          simp only [padding, List.cons_append, List.reverse_append, List.reverse_cons,
            List.reverse_nil, List.nil_append, List.reverse_replicate, List.append_assoc,
            List.cons.injEq, true_and] at reversed
          exact List.reverse_injective (append_one_zeros_inj reversed)

/-- The loop and the buffer behind it absorb the blocks of the padded input. -/
theorem keccakState_eq (input : Bytes) (positive : 0 < rsiz) :
    keccakState rsiz input =
      (fullBlocks rsiz (padded rsiz input)).foldl (absorbBlock rsiz) (List.replicate 25 0) := by
  have short : input.length % rsiz < rsiz := Nat.mod_lt _ positive
  have division := Nat.div_add_mod' input.length rsiz
  have left : (input.drop (input.length / rsiz * rsiz)).length = input.length % rsiz := by
    rw [List.length_drop]
    omega
  have filled : input.length % rsiz + (padding (rsiz - input.length % rsiz)).length = rsiz := by
    rw [length_padding]
    omega
  unfold keccakState
  rw [padLast_eq (left ▸ short), left, padded, fullBlocks_filled positive filled,
    List.foldl_append, List.foldl_cons, List.foldl_nil, fullBlocks, List.foldl_map]

/-- `keccak1600` is the sponge over its padded input, which determines the input. -/
theorem keccak1600_sponge (input : Bytes) :
    keccak1600 input = storeWords ((fullBlocks hashDataArea (padded hashDataArea input)).foldl
        (absorbBlock hashDataArea) (List.replicate 25 0)) ∧
      hashDataArea ∣ (padded hashDataArea input).length ∧
      ∀ input', padded hashDataArea input' = padded hashDataArea input → input' = input := by
  have positive : 0 < hashDataArea := by decide
  refine ⟨?_, ?_, fun input' same => ?_⟩
  · rw [keccak1600, keccak, if_pos rfl, keccakState_eq input positive, List.take_of_length_le]
    rw [length_storeWords, ← keccakState_eq input positive, length_keccakState]
  · have division := Nat.div_add_mod' input.length hashDataArea
    have short := Nat.mod_lt input.length positive
    refine ⟨input.length / hashDataArea + 1, ?_⟩
    rw [padded, List.length_append, length_padding, Nat.mul_comm, Nat.succ_mul]
    omega
  · have short := Nat.mod_lt input.length positive
    have short' := Nat.mod_lt input'.length positive
    rw [padded, padded, ← Nat.succ_pred_eq_of_pos (Nat.sub_pos_of_lt short),
      ← Nat.succ_pred_eq_of_pos (Nat.sub_pos_of_lt short')] at same
    exact append_padding_inj same

end Sponge

end Hypepool.Cryptonote
