import Mathlib.Data.List.Basic

/-!
# Coding a list block by block

A code for short lists extends to all lists: every full block is coded on its own, and so is what is
left behind the last of them.  The length of a coded block tells the length of the block, so two
codes that undo each other on blocks undo each other on lists (`inBlocks_inverse`).

A list read block by block, and its rest on its own, is read like one that was filled up to full
blocks first (`fullBlocks_filled`).
-/

namespace Hypepool.Base

universe u v

variable {α : Type u} {β : Type v} {size size' : Nat} {code : List α → Option (List β)}

/-- What the items behind the last full block are coded as. -/
def lastBlock (size : Nat) (code : List α → Option (List β)) (xs : List α) : Option (List β) :=
  if 0 < xs.length % size then code (xs.drop (xs.length / size * size)) else some []

/-- The full blocks of `size` items, then the rest. -/
def inBlocks (size : Nat) (code : List α → Option (List β)) (xs : List α) : Option (List β) := do
  let full ← (List.range (xs.length / size)).mapM fun i => code ((xs.drop (i * size)).take size)
  let last ← lastBlock size code xs
  return full.flatten ++ last

/-- A rest that cannot be coded spoils the whole list. -/
theorem inBlocks_of_rest {xs : List α} (rest : 0 < xs.length % size)
    (refused : code (xs.drop (xs.length / size * size)) = none) :
    inBlocks size code xs = none := by
  rw [inBlocks, lastBlock, if_pos rest, refused]
  cases (List.range (xs.length / size)).mapM fun i => code ((xs.drop (i * size)).take size) <;> rfl

theorem inBlocks_nil : inBlocks size code [] = some [] := by
  simp [inBlocks, lastBlock]

/-- A list without a full block is coded at once. -/
theorem inBlocks_short {xs : List α} (nonempty : 0 < xs.length) (short : xs.length < size) :
    inBlocks size code xs = code xs := by
  rw [inBlocks, lastBlock, Nat.div_eq_of_lt short, Nat.mod_eq_of_lt short, if_pos nonempty]
  simp

/-- The first full block is coded in front of the others. -/
theorem inBlocks_append {xs rest : List α} (positive : 0 < size) (full : xs.length = size) :
    inBlocks size code (xs ++ rest) = do
      let first ← code xs
      let others ← inBlocks size code rest
      return first ++ others := by
  have count : (xs ++ rest).length / size = rest.length / size + 1 := by
    rw [List.length_append, full, Nat.add_div_left _ positive]
  have left : (xs ++ rest).length % size = rest.length % size := by
    rw [List.length_append, full, Nat.add_mod_left]
  have behind (i : Nat) : (xs ++ rest).drop ((i + 1) * size) = rest.drop (i * size) := by
    rw [Nat.succ_mul, Nat.add_comm, ← List.drop_drop, List.drop_left' full]
  have last : lastBlock size code (xs ++ rest) = lastBlock size code rest := by
    rw [lastBlock, lastBlock, left, count, behind]
  rw [inBlocks, inBlocks, count, last, List.range_succ_eq_map, List.mapM_cons, List.mapM_map,
    Nat.zero_mul, List.drop_zero, List.take_left' full]
  simp only [Function.comp_def, behind, bind_assoc, pure_bind, List.flatten_cons,
    List.append_assoc]

/-- Induction that takes one full block off the front of a list. -/
theorem block_induction {P : List α → Prop} (positive : 0 < size) (nil : P [])
    (short : ∀ xs : List α, 0 < xs.length → xs.length < size → P xs)
    (full : ∀ xs rest : List α, xs.length = size → P rest → P (xs ++ rest)) (xs : List α) :
    P xs := by
  induction length : xs.length using Nat.strongRecOn generalizing xs with
  | ind n ih =>
      rcases Nat.lt_or_ge xs.length size with below | above
      · rcases Nat.eq_zero_or_pos xs.length with zero | nonempty
        · rw [List.eq_nil_of_length_eq_zero zero]
          exact nil
        · exact short xs nonempty below
      · have first : (xs.take size).length = size := by
          rw [List.length_take, Nat.min_eq_left above]
        have shorter : (xs.drop size).length < n := by
          rw [List.length_drop]
          omega
        rw [← List.take_append_drop size xs]
        exact full _ _ first (ih _ shorter _ rfl)

/-- How something else than a block of at most `size` items is coded does not matter. -/
theorem inBlocks_congr {code' : List α → Option (List β)} (positive : 0 < size)
    (same : ∀ xs : List α, 0 < xs.length → xs.length ≤ size → code xs = code' xs) (xs : List α) :
    inBlocks size code xs = inBlocks size code' xs := by
  induction xs using block_induction positive with
  | nil => rw [inBlocks_nil, inBlocks_nil]
  | short xs nonempty below =>
      rw [inBlocks_short nonempty below, inBlocks_short nonempty below,
        same xs nonempty (Nat.le_of_lt below)]
  | full xs rest length ih =>
      rw [inBlocks_append positive length, inBlocks_append positive length, ih,
        same xs (length ▸ positive) (Nat.le_of_eq length)]

/-- A list is coded when its blocks are. -/
theorem inBlocks_total (positive : 0 < size)
    (total : ∀ xs : List α, 0 < xs.length → xs.length ≤ size → ∃ ys, code xs = some ys)
    (xs : List α) : ∃ ys, inBlocks size code xs = some ys := by
  induction xs using block_induction positive with
  | nil => exact ⟨[], inBlocks_nil⟩
  | short xs nonempty below =>
      obtain ⟨ys, coded⟩ := total xs nonempty (Nat.le_of_lt below)
      exact ⟨ys, (inBlocks_short nonempty below).trans coded⟩
  | full xs rest length ih =>
      obtain ⟨first, coded⟩ := total xs (length ▸ positive) (Nat.le_of_eq length)
      obtain ⟨others, codedOthers⟩ := ih
      refine ⟨first ++ others, ?_⟩
      rw [inBlocks_append positive length, coded, codedOthers]
      rfl

/-- When the length of a block tells how long it is coded, the length of a list does. -/
theorem length_inBlocks {count : Nat → Nat} (positive : 0 < size) (zero : count 0 = 0)
    (counted : ∀ xs ys, 0 < xs.length → xs.length ≤ size → code xs = some ys →
      ys.length = count xs.length)
    {xs : List α} {ys : List β} (coded : inBlocks size code xs = some ys) :
    ys.length = xs.length / size * count size + count (xs.length % size) := by
  induction xs using block_induction positive generalizing ys with
  | nil =>
      rw [inBlocks_nil, Option.some.injEq] at coded
      rw [← coded, List.length_nil, List.length_nil, Nat.zero_div, Nat.zero_mod, zero, Nat.zero_mul]
  | short xs nonempty below =>
      rw [inBlocks_short nonempty below] at coded
      rw [Nat.div_eq_of_lt below, Nat.mod_eq_of_lt below,
        counted xs ys nonempty (Nat.le_of_lt below) coded, Nat.zero_mul, Nat.zero_add]
  | full xs rest length ih =>
      rw [inBlocks_append positive length] at coded
      obtain ⟨first, codedFirst, coded⟩ := Option.bind_eq_some_iff.mp coded
      obtain ⟨others, codedOthers, coded⟩ := Option.bind_eq_some_iff.mp coded
      obtain rfl := Option.some.inj coded
      have firstLength := counted xs first (length ▸ positive) (Nat.le_of_eq length) codedFirst
      rw [List.length_append, firstLength, ih codedOthers, List.length_append, length,
        Nat.add_div_left _ positive, Nat.add_mod_left, Nat.succ_mul]
      omega

/-- What holds of all that blocks are coded to holds of all that a list is coded to. -/
theorem forall_mem_inBlocks {P : β → Prop} (positive : 0 < size)
    (each : ∀ xs ys, 0 < xs.length → xs.length ≤ size → code xs = some ys → ∀ y ∈ ys, P y)
    {xs : List α} {ys : List β} (coded : inBlocks size code xs = some ys) : ∀ y ∈ ys, P y := by
  induction xs using block_induction positive generalizing ys with
  | nil =>
      rw [inBlocks_nil, Option.some.injEq] at coded
      rw [← coded]
      exact List.forall_mem_nil _
  | short xs nonempty below =>
      rw [inBlocks_short nonempty below] at coded
      exact each xs ys nonempty (Nat.le_of_lt below) coded
  | full xs rest length ih =>
      rw [inBlocks_append positive length] at coded
      obtain ⟨first, codedFirst, coded⟩ := Option.bind_eq_some_iff.mp coded
      obtain ⟨others, codedOthers, coded⟩ := Option.bind_eq_some_iff.mp coded
      obtain rfl := Option.some.inj coded
      exact List.forall_mem_append.mpr
        ⟨each xs first (length ▸ positive) (Nat.le_of_eq length) codedFirst, ih codedOthers⟩

/-- Two codes undo each other when they do so on full blocks and on shorter ones, and code a block
as a full one just when it is. -/
theorem inBlocks_inverse {back : List β → Option (List α)} (positive : 0 < size)
    (positive' : 0 < size')
    (full : ∀ xs ys, xs.length = size → code xs = some ys →
      ys.length = size' ∧ back ys = some xs)
    (short : ∀ xs ys, 0 < xs.length → xs.length < size → code xs = some ys →
      0 < ys.length ∧ ys.length < size' ∧ back ys = some xs)
    {xs : List α} {ys : List β} (coded : inBlocks size code xs = some ys) :
    inBlocks size' back ys = some xs := by
  induction xs using block_induction positive generalizing ys with
  | nil =>
      rw [inBlocks_nil, Option.some.injEq] at coded
      rw [← coded, inBlocks_nil]
  | short xs nonempty below =>
      rw [inBlocks_short nonempty below] at coded
      obtain ⟨nonempty', below', undone⟩ := short xs ys nonempty below coded
      rw [inBlocks_short nonempty' below', undone]
  | full xs rest length ih =>
      rw [inBlocks_append positive length] at coded
      obtain ⟨first, codedFirst, coded⟩ := Option.bind_eq_some_iff.mp coded
      obtain ⟨others, codedOthers, coded⟩ := Option.bind_eq_some_iff.mp coded
      obtain rfl := Option.some.inj coded
      obtain ⟨length', undone⟩ := full xs first length codedFirst
      rw [inBlocks_append positive' length', undone, ih codedOthers]
      rfl

/-! ## The full blocks -/

/-- The full blocks of `size` items. -/
def fullBlocks (size : Nat) (xs : List α) : List (List α) :=
  (List.range (xs.length / size)).map fun i => (xs.drop (i * size)).take size

theorem fullBlocks_short {xs : List α} (short : xs.length < size) : fullBlocks size xs = [] := by
  rw [fullBlocks, Nat.div_eq_of_lt short]
  rfl

theorem fullBlocks_single {xs : List α} (positive : 0 < size) (full : xs.length = size) :
    fullBlocks size xs = [xs] := by
  have whole : xs.take size = xs := List.take_of_length_le (Nat.le_of_eq full)
  simp [fullBlocks, full, Nat.div_self positive, whole]

/-- The blocks behind full blocks are their own. -/
theorem fullBlocks_append {xs ys : List α} {count : Nat} (positive : 0 < size)
    (full : xs.length = count * size) :
    fullBlocks size (xs ++ ys) = fullBlocks size xs ++ fullBlocks size ys := by
  have counts : (xs ++ ys).length / size = count + ys.length / size := by
    rw [List.length_append, full, Nat.mul_comm, Nat.mul_add_div positive]
  have counts' : xs.length / size = count := by
    rw [full, Nat.mul_div_cancel _ positive]
  have front : ∀ i ∈ List.range count,
      ((xs ++ ys).drop (i * size)).take size = (xs.drop (i * size)).take size := by
    intro i member
    have inside : (i + 1) * size ≤ count * size :=
      Nat.mul_le_mul_right size (List.mem_range.mp member)
    rw [Nat.succ_mul] at inside
    rw [List.drop_append_of_le_length (by omega), List.take_append_of_le_length]
    rw [List.length_drop]
    omega
  have behind (i : Nat) : (xs ++ ys).drop ((count + i) * size) = ys.drop (i * size) := by
    rw [Nat.add_mul, ← full, List.drop_length_add_append]
  rw [fullBlocks, counts, List.range_add, List.map_append, List.map_map,
    List.map_congr_left front, fullBlocks, counts', fullBlocks]
  simp only [Function.comp_def, behind]

/-- What fills the rest up to a full block adds this block to the others. -/
theorem fullBlocks_filled {xs fill : List α} (positive : 0 < size)
    (filled : xs.length % size + fill.length = size) :
    fullBlocks size (xs ++ fill) =
      fullBlocks size xs ++ [xs.drop (xs.length / size * size) ++ fill] := by
  obtain ⟨front, isFront⟩ : ∃ front, front = xs.take (xs.length / size * size) := ⟨_, rfl⟩
  obtain ⟨rest, isRest⟩ : ∃ rest, rest = xs.drop (xs.length / size * size) := ⟨_, rfl⟩
  have whole : xs = front ++ rest := by rw [isFront, isRest, List.take_append_drop]
  have room := Nat.div_add_mod' xs.length size
  have full : front.length = xs.length / size * size := by
    rw [isFront, List.length_take_of_le]
    omega
  have left : rest.length = xs.length % size := by
    rw [isRest, List.length_drop]
    omega
  have short : rest.length < size := left ▸ Nat.mod_lt _ positive
  have block : (rest ++ fill).length = size := by rw [List.length_append, left, filled]
  have blocks : fullBlocks size xs = fullBlocks size front := by
    conv_lhs => rw [whole, fullBlocks_append positive full, fullBlocks_short short]
    exact List.append_nil _
  rw [← isRest, blocks, ← fullBlocks_single positive block, ← fullBlocks_append positive full,
    ← List.append_assoc, ← whole]

end Hypepool.Base
