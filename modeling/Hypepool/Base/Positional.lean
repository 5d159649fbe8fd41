import Mathlib.Algebra.Order.Ring.Nat
import Mathlib.Data.List.Basic
import Mathlib.Data.Nat.Digits.Defs

/-!
# Numbers written with a fixed number of digits

Positional notation with the most significant digit first, over an alphabet that gives a symbol for
each digit.

* `written_lt_written`: when the alphabet is sorted, so are the written numbers; as far as the
  digits reach, the lexicographic order is the order of the numbers.
* `ofDigits_written`, `written_ofDigits`: reading the digits and writing the number are inverse.
-/

namespace Hypepool.Base

universe u

variable {α : Type u} {symbol : Nat → α} {base width number x y : Nat}

/-- The `width` lowest digits of a number to `base`. -/
def written (symbol : Nat → α) (base : Nat) : (width : Nat) → Nat → List α
  | 0, _ => []
  | width + 1, number => symbol (number / base ^ width % base) :: written symbol base width number

@[simp] theorem written_length : (written symbol base width number).length = width := by
  induction width with
  | zero => rfl
  | succ width ih => rw [written, List.length_cons, ih]

theorem mem_written (positive : 0 < base) {letter : α}
    (member : letter ∈ written symbol base width number) :
    ∃ digit < base, letter = symbol digit := by
  induction width with
  | zero => cases member
  | succ width ih =>
      rcases List.mem_cons.mp member with here | later
      · exact ⟨_, Nat.mod_lt _ positive, here⟩
      · exact ih later

theorem written_zero : written symbol base width 0 = List.replicate width (symbol 0) := by
  induction width with
  | zero => rfl
  | succ width ih => rw [written, ih, Nat.zero_div, Nat.zero_mod, List.replicate_succ]

/-- The last digit is the remainder, and the others are the digits of the quotient. -/
theorem written_succ_append : written symbol base (width + 1) number =
    written symbol base width (number / base) ++ [symbol (number % base)] := by
  induction width with
  | zero => rw [Nat.zero_add, written, written, Nat.pow_zero, Nat.div_one]; rfl
  | succ width ih =>
      rw [written, ih, written, Nat.div_div_eq_div_mul, Nat.pow_succ', List.cons_append]

/-- A greater digit outweighs whatever follows it. -/
theorem greater_digit {power rest rest' digit digit' : Nat} (small : rest' < power)
    (greater : digit' < digit) : rest' + power * digit' < rest + power * digit := by
  have step := Nat.mul_le_mul_left power (Nat.succ_le_of_lt greater)
  rw [Nat.mul_succ] at step
  omega

/-- The induction is on the number of digits: the first of them decides, unless it is the same. -/
theorem written_lt_written [LT α] (positive : 0 < base)
    (sorted : ∀ i j, i < j → j < base → symbol i < symbol j)
    (less : x % base ^ width < y % base ^ width) :
    written symbol base width x < written symbol base width y := by
  induction width with
  | zero =>
      rw [Nat.pow_zero, Nat.mod_one, Nat.mod_one] at less
      exact (Nat.lt_irrefl 0 less).elim
  | succ width ih =>
      rw [Nat.mod_pow_succ, Nat.mod_pow_succ] at less
      have power : 0 < base ^ width := Nat.pow_pos positive
      have digitY := Nat.mod_lt (y / base ^ width) positive
      rw [written, written, List.cons_lt_cons_iff]
      rcases Nat.lt_trichotomy (x / base ^ width % base) (y / base ^ width % base) with
        lower | same | higher
      · exact Or.inl (sorted _ _ lower digitY)
      · refine Or.inr ⟨congrArg symbol same, ih ?_⟩
        rw [same] at less
        exact Nat.lt_of_add_lt_add_right less
      · exact (Nat.lt_asymm less (greater_digit (Nat.mod_lt y power) higher)).elim

/-! ## Reading a number back -/

theorem written_eq_map : written symbol base width number =
    (written id base width number).map symbol := by
  induction width with
  | zero => rfl
  | succ width ih => simp only [written, List.map_cons, id_eq, ih]

/-- Digits are not changed by what stands in front of them. -/
theorem written_add_mul (positive : 0 < base) (extra other : Nat) :
    written symbol base width (number + base ^ (width + extra) * other) =
      written symbol base width number := by
  induction width generalizing extra with
  | zero => rfl
  | succ width ih =>
      have power : 0 < base ^ width := Nat.pow_pos positive
      have front : base ^ (width + 1 + extra) * other =
          base ^ width * (base * (base ^ extra * other)) := by
        rw [Nat.add_assoc, Nat.pow_add, Nat.add_comm 1 extra, Nat.pow_succ']
        simp only [Nat.mul_assoc]
      have deeper := ih (extra + 1)
      rw [← Nat.add_assoc, Nat.add_right_comm width extra 1] at deeper
      rw [written, written, deeper, front, Nat.add_mul_div_left _ _ power,
        Nat.add_mul_mod_self_left]

theorem ofDigits_written : Nat.ofDigits base (written id base width number).reverse =
    number % base ^ width := by
  induction width with
  | zero => rw [Nat.pow_zero, Nat.mod_one]; rfl
  | succ width ih =>
      rw [written, Nat.ofDigits_reverse_cons, ih, written_length, id_eq, Nat.mod_pow_succ]

theorem written_ofDigits {digits : List Nat} (several : 1 < base)
    (small : ∀ digit ∈ digits, digit < base) :
    written id base digits.length (Nat.ofDigits base digits.reverse) = digits := by
  induction digits with
  | nil => rfl
  | cons digit digits ih =>
      have positive : 0 < base := Nat.lt_trans Nat.zero_lt_one several
      have here := small digit List.mem_cons_self
      have later : ∀ digit ∈ digits, digit < base := fun d hd => small d (List.mem_cons_of_mem _ hd)
      have below := Nat.ofDigits_lt_base_pow_length several
        (fun d hd => later d (List.mem_reverse.mp hd) : ∀ d ∈ digits.reverse, d < base)
      rw [List.length_reverse] at below
      rw [List.length_cons, written, Nat.ofDigits_reverse_cons,
        Nat.add_mul_div_left _ _ (Nat.pow_pos positive), Nat.div_eq_of_lt below, Nat.zero_add,
        id_eq, Nat.mod_eq_of_lt here]
      exact congrArg _ ((written_add_mul positive 0 digit).trans (ih later))

end Hypepool.Base
