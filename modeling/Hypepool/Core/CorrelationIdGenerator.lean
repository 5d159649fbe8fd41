import Hypepool.Net.Runtime

/-!
# `CorrelationIdGenerator`

An id is a 64-bit counter value, written in thirteen base-32 digits, five bits to a digit and the
most significant digit first.  The top digit has the sign bit twice, so that the digits determine
the counter value:

* `generateId_injective`: two counter values with the same id are the same.
* `nthId_injective`: ids drawn fewer than 2^64 draws apart are different, also where the counter
  wraps around.
-/

namespace Hypepool

/-- A `long` outside a `checked` context: the value modulo 2^64, read as signed. -/
def int64 (value : Int) : Int :=
  (value + 0x8000000000000000) % 0x10000000000000000 - 0x8000000000000000

theorem int64_range (value : Int) :
    -0x8000000000000000 ≤ int64 value ∧ int64 value < 0x8000000000000000 := by
  unfold int64
  omega

namespace CorrelationIdGenerator

/-- `_encode32Chars`. -/
def encode32Chars : NetString := text "0123456789ABCDEFGHIJKLMNOPQRSTUV"

/-- The shifts by which `GenerateId` brings each digit to the lowest five bits. -/
def shifts : List Nat := [60, 55, 50, 45, 40, 35, 30, 25, 20, 15, 10, 5, 0]

/-- `(int)(id >> shift) & 31`. -/
def digit (id : Int) (shift : Nat) : Nat := (int32 (Int.shiftRight id shift) % 32).toNat

/-- `GenerateId`. -/
def generateId (id : Int) : NetString :=
  shifts.map fun shift => encode32Chars.getD (digit id shift) 0

/-- `GetNextId`: the id, and the next value of `_lastId`. -/
def getNextId (lastId : Int) : NetString × Int :=
  let lastId := int64 (lastId + 1)
  (generateId lastId, lastId)

/-- The id of the `n`-th draw after the counter was `start`. -/
def nthId (start : Int) (n : Nat) : NetString := generateId (int64 (start + n))

theorem getNextId_of_draws (start : Int) (n : Nat) :
    getNextId (int64 (start + n)) = (nthId start (n + 1), int64 (start + (n + 1 : Nat))) := by
  have counted : int64 (int64 (start + n) + 1) = int64 (start + (n + 1 : Nat)) := by
    unfold int64
    omega
  rw [getNextId, counted, nthId]

/-! ## Different counter values have different ids -/

theorem digit_eq (id : Int) (shift : Nat) :
    (digit id shift : Int) = Int.shiftRight id shift % 32 := by
  unfold digit int32
  omega

theorem encode32Chars_injective {i j : Nat} (inRange : i < 32) (inRange' : j < 32)
    (same : encode32Chars.getD i 0 = encode32Chars.getD j 0) : i = j := by
  have all : ∀ i < 32, ∀ j < 32,
      encode32Chars.getD i 0 = encode32Chars.getD j 0 → i = j := by decide +kernel
  exact all i inRange j inRange' same

theorem digit_eq_of_generateId {a b : Int} (same : generateId a = generateId b) {shift : Nat}
    (member : shift ∈ shifts) : digit a shift = digit b shift := by
  have range : ∀ id, digit id shift < 32 := fun id => by
    have exact := digit_eq id shift
    omega
  exact encode32Chars_injective (range a) (range b) (List.map_inj_left.mp same shift member)

/-- Two numbers agree above a digit, and in the digit: they agree from it on. -/
theorem shiftRight_eq_of_digit {a b : Int} {shift : Nat}
    (above : Int.shiftRight a (shift + 5) = Int.shiftRight b (shift + 5))
    (here : digit a shift = digit b shift) : Int.shiftRight a shift = Int.shiftRight b shift := by
  have split : ∀ id : Int, Int.shiftRight id (shift + 5) = Int.shiftRight id shift / 32 := by
    intro id
    have composed := Int.shiftRight_add id shift 5
    have quotient := Int.shiftRight_eq_div_pow (Int.shiftRight id shift) 5
    exact composed.trans quotient
  have digitA := digit_eq a shift
  have digitB := digit_eq b shift
  rw [split, split] at above
  omega

theorem generateId_injective {a b : Int}
    (rangeA : -0x8000000000000000 ≤ a ∧ a < 0x8000000000000000)
    (rangeB : -0x8000000000000000 ≤ b ∧ b < 0x8000000000000000)
    (same : generateId a = generateId b) : a = b := by
  have digits : ∀ {shift : Nat}, shift ∈ shifts → digit a shift = digit b shift :=
    fun member => digit_eq_of_generateId same member
  -- above the top digit there is only the sign, which it repeats
  have top : Int.shiftRight a 60 = Int.shiftRight b 60 := by
    have equal : digit a 60 = digit b 60 := digits (by decide)
    have digitA := digit_eq a 60
    have digitB := digit_eq b 60
    have quotient : ∀ id : Int, Int.shiftRight id 60 = id / 0x1000000000000000 := fun id =>
      Int.shiftRight_eq_div_pow id 60
    rw [quotient] at digitA digitB ⊢
    rw [quotient]
    omega
  have down : ∀ n ≤ 12, Int.shiftRight a (60 - 5 * n) = Int.shiftRight b (60 - 5 * n) := by
    intro n
    induction n with
    | zero => exact fun _ => top
    | succ n ih =>
        intro bound
        have above := ih (by omega)
        have position : 60 - 5 * n = 60 - 5 * (n + 1) + 5 := by omega
        rw [position] at above
        refine shiftRight_eq_of_digit above (digits ?_)
        have listed : ∀ n ≤ 12, 60 - 5 * n ∈ shifts := by decide
        exact listed (n + 1) bound
  have whole : Int.shiftRight a 0 = Int.shiftRight b 0 := down 12 (Nat.le_refl 12)
  rwa [show Int.shiftRight a 0 = a from Int.shiftRight_zero a,
    show Int.shiftRight b 0 = b from Int.shiftRight_zero b] at whole

/-- Draws that are fewer than 2^64 apart give different ids. -/
theorem nthId_injective {start : Int} {m n : Nat} (close : m < n + 0x10000000000000000)
    (close' : n < m + 0x10000000000000000) (same : nthId start m = nthId start n) : m = n := by
  have counters : int64 (start + m) = int64 (start + n) :=
    generateId_injective (int64_range _) (int64_range _) same
  unfold int64 at counters
  omega

theorem generateId_ne_nil (id : Int) : generateId id ≠ [] := by
  unfold generateId shifts
  exact List.cons_ne_nil _ _

end CorrelationIdGenerator

end Hypepool
