import Hypepool.Base.MerkleTree
import Hypepool.Cryptonote.Keccak
import Mathlib.Data.Nat.Log

/-!
# `tree-hash.c`

`tree_hash` first combines as many pairs at the end of the hashes as leave a power of two of them,
and then level after level in one array, for which `alloca` takes room on the call stack.  An
assertion that fails ends the process, and so does an array the stack has no room for: both are
`none` here.

* `treeHash_eq_root`: what it computes is the root of a tree over the hashes, and it computes it
  exactly for the numbers of hashes up to the sanity limit whose array the stack has room for.
* `hashes_eq_or_collides`: equal roots of as many hashes come from equal hashes, or from a collision
  among what was hashed on the way.
-/

namespace Hypepool.Cryptonote

open Base

/-- `cn_fast_hash` of the 64 bytes at a hash that another one follows. -/
def hashPair (first second : Hash) : Hash := cnFastHash (first.val ++ second.val)

/-- `while(pow < count) pow <<= 1`. -/
def doubleWhileLess (count pow : Nat) (positive : 0 < pow) : Nat :=
  if pow < count then
    doubleWhileLess count (pow <<< 1) (by rw [Nat.shiftLeft_eq]; omega)
  else pow
termination_by count - pow
decreasing_by
  rw [Nat.shiftLeft_eq]
  omega

/-- `tree_hash_cnt`. -/
def treeHashCnt (count : Nat) : Option Nat :=
  if count < 3 then none
  else if 0x10000000 < count then none
  else some (doubleWhileLess count 2 (by decide) >>> 1)

/-- The loop that fills `ints` from `start` on with the pairs of `hashes`, and the value `i` has
behind it. -/
def combineTail (hashes : List Hash) (start turns : Nat) (ints : List Hash) : Nat × List Hash :=
  (List.range' start turns).foldl (fun (i, ints) j =>
    (i + 2, ints.set j (hashPair (hashes.getD i default) (hashes.getD (i + 1) default))))
    (start, ints)

/-- One turn of the `while` loop: its inner loop, where `i` is `2 * j`. -/
def combineLevel (cnt : Nat) (ints : List Hash) : List Hash :=
  (List.range cnt).foldl (fun ints j =>
    ints.set j (hashPair (ints.getD (2 * j) default) (ints.getD (2 * j + 1) default))) ints

/-- `while (cnt > 2)`. -/
def combineLevels (cnt : Nat) (ints : List Hash) : List Hash :=
  if 2 < cnt then combineLevels (cnt >>> 1) (combineLevel (cnt >>> 1) ints) else ints
termination_by cnt
decreasing_by
  rw [Nat.shiftRight_eq_div_pow]
  omega

/-- `tree_hash`, where the call stack has room for `stack` more bytes. -/
def treeHash (stack : Nat) (hashes : List Hash) : Option Hash :=
  let count := hashes.length
  if count = 0 then none
  else if count = 1 then some (hashes.getD 0 default)
  else if count = 2 then some (hashPair (hashes.getD 0 default) (hashes.getD 1 default))
  else do
    let cnt ← treeHashCnt count
    let start := 2 * cnt - count
    let intsSize := cnt * hashSize
    if stack < intsSize then none
    else
      -- allocate, and zero out
      let ints := List.replicate cnt default
      let ints := hashes.take start ++ ints.drop start
      let (i, ints) := combineTail hashes start (cnt - start) ints
      if i ≠ count then none
      else
        let ints := combineLevels cnt ints
        return hashPair (ints.getD 0 default) (ints.getD 1 default)

/-! ## The tree -/

/-- How often the hashes are halved once there is a power of two of them. -/
def levels (count : Nat) : Nat := Nat.clog 2 count - 1

/-- The lowest level that is full: single hashes first, then pairs. -/
def lowestLevel {β : Type} (combine : β → β → β) (hashes : List β) : List β :=
  let start := 2 * 2 ^ levels hashes.length - hashes.length
  hashes.take start ++ pairUp combine (hashes.drop start)

/-- The call stack has room for the array. -/
def HasRoom (stack count : Nat) : Prop := 3 ≤ count → 2 ^ levels count * hashSize ≤ stack

instance (stack count : Nat) : Decidable (HasRoom stack count) :=
  inferInstanceAs (Decidable (_ → _))

/-- The tree over the hashes. -/
def merkleTree (hashes : List Hash) : HashTree Hash :=
  (pairUps HashTree.node (levels hashes.length)
    (lowestLevel HashTree.node (hashes.map HashTree.leaf))).headD default

section Shape

variable {hashes hashes' : List Hash} {count : Nat}

theorem levels_lt (more : 1 < count) : 2 ^ levels count < count :=
  Nat.pow_pred_clog_lt_self (by decide) more

/-- The full level has room for the hashes, and less room would not do. -/
theorem levels_spec (positive : 0 < count) :
    2 ^ levels count ≤ count ∧ count ≤ 2 * 2 ^ levels count := by
  have below := Nat.le_pow_clog (b := 2) (by decide) count
  rcases Nat.lt_or_ge 1 count with more | single
  · have above := Nat.pow_pred_clog_lt_self (b := 2) (by decide) more
    have some := Nat.clog_pos (b := 2) (by decide) more
    rw [← Nat.succ_pred_eq_of_pos some, Nat.pow_succ, Nat.mul_comm] at below
    exact ⟨Nat.le_of_lt above, below⟩
  · obtain rfl := Nat.le_antisymm single positive
    decide

theorem length_lowestLevel {β : Type} {combine : β → β → β} {hashes : List β}
    (positive : 0 < hashes.length) :
    (lowestLevel combine hashes).length = 2 ^ levels hashes.length := by
  obtain ⟨least, most⟩ := levels_spec positive
  rw [lowestLevel, List.length_append, length_pairUp, List.length_take, List.length_drop]
  omega

/-- The tree is the only one on its last level. -/
theorem pairUps_eq_merkleTree (positive : 0 < hashes.length) :
    pairUps HashTree.node (levels hashes.length)
      (lowestLevel HashTree.node (hashes.map HashTree.leaf)) = [merkleTree hashes] := by
  have full : (lowestLevel HashTree.node (hashes.map HashTree.leaf)).length =
      2 ^ levels hashes.length := by
    rw [length_lowestLevel (by rwa [List.length_map]), List.length_map]
  have single : (pairUps HashTree.node _ _).length = 1 := length_pairUps full
  obtain ⟨tree, single⟩ := List.length_eq_one_iff.mp single
  rw [merkleTree, single]
  rfl

/-- The leaves of the tree are the hashes in their order. -/
theorem leaves_merkleTree (positive : 0 < hashes.length) : (merkleTree hashes).leaves = hashes := by
  have leaves := congrArg (List.flatMap HashTree.leaves) (pairUps_eq_merkleTree positive)
  have single (hashes : List Hash) :
      (hashes.map HashTree.leaf).flatMap HashTree.leaves = hashes := by
    rw [List.flatMap_map]
    exact List.flatMap_singleton' hashes
  rw [flatMap_leaves_pairUps, lowestLevel, List.flatMap_append, flatMap_leaves_pairUp,
    ← List.flatMap_append, List.take_append_drop, single, List.flatMap_singleton] at leaves
  exact leaves.symm

theorem flatMap_depths_lowestLevel (positive : 0 < count) (length : hashes.length = count) :
    (lowestLevel HashTree.node (hashes.map HashTree.leaf)).flatMap HashTree.depths =
      List.replicate (2 * 2 ^ levels count - count) 0 ++
        List.replicate (2 * (count - 2 ^ levels count)) 1 := by
  obtain ⟨least, most⟩ := levels_spec positive
  have behind : ((hashes.map HashTree.leaf).drop (2 * 2 ^ levels count - count)).length =
      2 * (count - 2 ^ levels count) := by
    rw [List.length_drop, List.length_map, length]
    omega
  have front : (hashes.take (2 * 2 ^ levels count - count)).length =
      2 * 2 ^ levels count - count := List.length_take_of_le (by omega)
  rw [lowestLevel, List.length_map, length, List.flatMap_append, flatMap_depths_pairUp behind,
    ← List.map_take, ← List.map_drop, flatMap_depths_map_leaf, flatMap_depths_map_leaf, front,
    List.map_replicate, ← behind, List.length_drop, List.length_drop, List.length_map]

/-- The hashes stand at the two lowest levels, those that were paired first at the lower one. -/
theorem depths_merkleTree (positive : 0 < hashes.length) :
    (merkleTree hashes).depths =
      List.replicate (2 * 2 ^ levels hashes.length - hashes.length) (levels hashes.length) ++
        List.replicate (2 * (hashes.length - 2 ^ levels hashes.length))
          (levels hashes.length + 1) := by
  have full : (lowestLevel HashTree.node (hashes.map HashTree.leaf)).length =
      2 ^ levels hashes.length := by
    rw [length_lowestLevel (by rwa [List.length_map]), List.length_map]
  have depths := congrArg (List.flatMap HashTree.depths) (pairUps_eq_merkleTree positive)
  rw [flatMap_depths_pairUps full, flatMap_depths_lowestLevel positive rfl, List.map_append,
    List.map_replicate, List.map_replicate, List.flatMap_singleton, Nat.zero_add,
    Nat.add_comm 1] at depths
  exact depths.symm

/-- The shape of the tree depends on the number of the hashes alone. -/
theorem sameShape_merkleTree (positive : 0 < hashes.length)
    (length : hashes.length = hashes'.length) :
    HashTree.SameShape (merkleTree hashes) (merkleTree hashes') := by
  have leafs := sameShape_map_leaf length
  have lowest : List.Forall₂ HashTree.SameShape
      (lowestLevel HashTree.node (hashes.map HashTree.leaf))
      (lowestLevel HashTree.node (hashes'.map HashTree.leaf)) := by
    rw [lowestLevel, lowestLevel, List.length_map, List.length_map, ← length]
    exact List.rel_append (List.forall₂_take _ leafs) (sameShape_pairUp (List.forall₂_drop _ leafs))
  have level := @sameShape_pairUps _ (levels hashes.length) _ _ lowest
  rw [pairUps_eq_merkleTree positive, length, pairUps_eq_merkleTree (length ▸ positive)] at level
  cases level with
  | cons shape _ => exact shape

end Shape

/-! ## The root -/

section Root

variable {hashes hashes' front zeros ints : List Hash} {stack count turns depth : Nat}
  {root : Hash}

/-- The loop doubles a power of two up to the least one that is not less. -/
theorem doubleWhileLess_eq {pow : Nat} (positive : 0 < pow) (power : pow = 2 ^ depth) :
    doubleWhileLess count pow positive = 2 ^ max depth (Nat.clog 2 count) := by
  fun_induction doubleWhileLess count pow positive generalizing depth with
  | case1 pow positive less ih =>
      have below : depth < Nat.clog 2 count :=
        (Nat.lt_clog_iff_pow_lt (by decide)).mpr (power ▸ less)
      have next := @ih (depth + 1) (by rw [Nat.shiftLeft_eq, power, ← Nat.pow_add])
      rw [next, Nat.max_eq_right below, Nat.max_eq_right (Nat.le_of_lt below)]
  | case2 pow positive stop =>
      have reached : Nat.clog 2 count ≤ depth :=
        (Nat.clog_le_iff_le_pow (by decide)).mpr (power ▸ Nat.not_lt.mp stop)
      rw [Nat.max_eq_left reached, power]

theorem treeHashCnt_eq (some_ : 3 ≤ count) (sane : count ≤ 0x10000000) :
    treeHashCnt count = some (2 ^ levels count) := by
  have below : ¬ count < 3 := by omega
  have within : ¬ 0x10000000 < count := by omega
  have positive : 1 ≤ Nat.clog 2 count := Nat.clog_pos (by decide) (by omega)
  have half : 2 ^ Nat.clog 2 count = 2 ^ levels count * 2 := by
    rw [← Nat.pow_succ, levels, Nat.succ_eq_add_one, Nat.sub_add_cancel positive]
  rw [treeHashCnt, if_neg below, if_neg within, doubleWhileLess_eq _ (Nat.pow_one 2).symm,
    Nat.max_eq_right positive, half, Nat.shiftRight_eq_div_pow, Nat.pow_one,
    Nat.mul_div_cancel _ (by decide)]

theorem of_treeHashCnt {cnt : Nat} (counted : treeHashCnt count = some cnt) :
    3 ≤ count ∧ count ≤ 0x10000000 ∧ cnt = 2 ^ levels count := by
  have bounds : 3 ≤ count ∧ count ≤ 0x10000000 := by
    rw [treeHashCnt] at counted
    split at counted
    · cases counted
    split at counted
    · cases counted
    omega
  rw [treeHashCnt_eq bounds.1 bounds.2, Option.some.injEq] at counted
  exact ⟨bounds.1, bounds.2, counted.symm⟩

/-- The first loop fills the zeros behind `front` with pairs. -/
theorem combineTail_eq (inside : front.length + 2 * turns ≤ hashes.length)
    (room : turns ≤ zeros.length) :
    combineTail hashes front.length turns (front ++ zeros) =
      (front.length + 2 * turns, front ++
        (pairUp hashPair ((hashes.drop front.length).take (2 * turns)) ++ zeros.drop turns)) := by
  induction turns with
  | zero => rfl
  | succ turns ih =>
      have first : 2 * turns < (hashes.drop front.length).length := by
        rw [List.length_drop]
        omega
      have second : 2 * turns + 1 < (hashes.drop front.length).length := by
        rw [List.length_drop]
        omega
      have even : ((hashes.drop front.length).take (2 * turns)).length = 2 * turns :=
        List.length_take_of_le (by omega)
      have done : (pairUp hashPair ((hashes.drop front.length).take (2 * turns))).length =
          turns := by
        rw [length_pairUp, even]
        omega
      have read (k : Nat) (bound : k < (hashes.drop front.length).length) :
          hashes.getD (front.length + k) default = (hashes.drop front.length)[k] := by
        rw [List.getElem_drop, List.getD_eq_getElem]
      have pair : (hashes.drop front.length).take (2 * (turns + 1)) =
          (hashes.drop front.length).take (2 * turns) ++
            [hashes.getD (front.length + 2 * turns) default,
              hashes.getD (front.length + 2 * turns + 1) default] := by
        rw [Nat.add_assoc, read _ first, read _ second, Nat.mul_succ,
          List.take_succ_eq_append_getElem second, List.take_succ_eq_append_getElem first,
          List.append_assoc]
        rfl
      have before := ih (by omega) (by omega)
      rw [combineTail] at before ⊢
      rw [List.range'_1_concat, List.foldl_append, before, List.foldl_cons, List.foldl_nil, pair,
        pairUp_append even]
      dsimp only
      rw [List.set_append_right _ _ (Nat.le_add_right _ _), Nat.add_sub_cancel_left,
        List.set_append_right _ _ (Nat.le_of_eq done), done, Nat.sub_self,
        List.drop_eq_getElem_cons (by omega : turns < zeros.length), List.set_cons_zero,
        List.append_assoc]
      rfl

/-- The levels above a full one, up to the pair that is hashed last. -/
theorem combineLevels_eq (room : 2 ^ (depth + 1) ≤ ints.length) :
    pairUps hashPair (depth + 1) (ints.take (2 ^ (depth + 1))) =
      [hashPair ((combineLevels (2 ^ (depth + 1)) ints).getD 0 default)
        ((combineLevels (2 ^ (depth + 1)) ints).getD 1 default)] := by
  induction depth generalizing ints with
  | zero =>
      rw [combineLevels, if_neg (by decide)]
      match ints, room with
      | first :: second :: rest, _ => rfl
  | succ depth ih =>
      have twice : 2 ^ (depth + 1 + 1) = 2 * 2 ^ (depth + 1) := by
        rw [Nat.pow_succ, Nat.mul_comm]
      have positive : 0 < 2 ^ depth := Nat.pow_pos (by decide)
      have more : 2 < 2 ^ (depth + 1 + 1) := by
        rw [twice, Nat.pow_succ]
        omega
      have half : 2 ^ (depth + 1 + 1) >>> 1 = 2 ^ (depth + 1) := by
        rw [Nat.shiftRight_eq_div_pow, twice, Nat.pow_one, Nat.mul_div_cancel_left _ (by decide)]
      have level : combineLevel (2 ^ (depth + 1)) ints =
          pairUp hashPair (ints.take (2 ^ (depth + 1 + 1))) ++ ints.drop (2 ^ (depth + 1)) := by
        rw [combineLevel, foldl_set_pairs (twice ▸ room), twice]
      have length : (pairUp hashPair (ints.take (2 ^ (depth + 1 + 1)))).length =
          2 ^ (depth + 1) := by
        rw [length_pairUp, List.length_take_of_le room, twice]
        omega
      have above := @ih (combineLevel (2 ^ (depth + 1)) ints) (by
        rw [level, List.length_append, length]
        omega)
      rw [combineLevels, if_pos more, half, ← above, level, List.take_left' length]
      rfl

/-- The root of the tree, computed level by level. -/
theorem pairUps_hashPair (positive : 0 < hashes.length) :
    pairUps hashPair (levels hashes.length) (lowestLevel hashPair hashes) =
      [(merkleTree hashes).root hashPair] := by
  have roots := congrArg (List.map (HashTree.root hashPair)) (pairUps_eq_merkleTree positive)
  have leaf : (hashes.map HashTree.leaf).map (HashTree.root hashPair) = hashes := by
    rw [List.map_map]
    exact List.map_id hashes
  rw [map_pairUps (fun _ _ => rfl), lowestLevel, List.map_append, map_pairUp (fun _ _ => rfl),
    List.map_take, List.map_drop, leaf, List.length_map] at roots
  exact roots

theorem treeHash_of_three_le (many : 3 ≤ hashes.length) (sane : hashes.length ≤ 0x10000000)
    (room : HasRoom stack hashes.length) :
    treeHash stack hashes = some ((merkleTree hashes).root hashPair) := by
  have enough : ¬ stack < 2 ^ levels hashes.length * hashSize := Nat.not_lt.mpr (room many)
  obtain ⟨least, most⟩ := levels_spec (show 0 < hashes.length by omega)
  obtain ⟨depth, isDepth⟩ : ∃ depth, levels hashes.length = depth + 1 := by
    have two : 1 < Nat.clog 2 hashes.length := (Nat.lt_clog_iff_pow_lt (by decide)).mpr (by omega)
    exact ⟨levels hashes.length - 1, by rw [levels]; omega⟩
  obtain ⟨start, isStart⟩ : ∃ start, start = 2 * 2 ^ levels hashes.length - hashes.length :=
    ⟨_, rfl⟩
  have front : (hashes.take start).length = start := List.length_take_of_le (by omega)
  have zeros : ((List.replicate (2 ^ levels hashes.length) (default : Hash)).drop start).length =
      2 ^ levels hashes.length - start := by
    rw [List.length_drop, List.length_replicate]
  have tail := @combineTail_eq hashes (hashes.take start)
    ((List.replicate (2 ^ levels hashes.length) default).drop start)
    (2 ^ levels hashes.length - start) (by omega) (by omega)
  have all : (hashes.drop start).take (2 * (2 ^ levels hashes.length - start)) =
      hashes.drop start := by
    refine List.take_of_length_le ?_
    rw [List.length_drop]
    omega
  have none : (((List.replicate (2 ^ levels hashes.length) (default : Hash)).drop start).drop
      (2 ^ levels hashes.length - start)) = [] := by
    exact List.drop_eq_nil_of_le (Nat.le_of_eq zeros)
  have lowest : hashes.take start ++ pairUp hashPair (hashes.drop start) =
      lowestLevel hashPair hashes := by
    rw [lowestLevel, isStart]
  have full : (lowestLevel hashPair hashes).length = 2 ^ (depth + 1) := by
    rw [length_lowestLevel (by omega), isDepth]
  have last : start + 2 * (2 ^ levels hashes.length - start) = hashes.length := by omega
  have root := pairUps_hashPair (show 0 < hashes.length by omega)
  have above := combineLevels_eq (Nat.le_of_eq full.symm)
  rw [List.take_of_length_le (Nat.le_of_eq full), ← isDepth, root, List.cons.injEq] at above
  rw [front, all, none, List.append_nil, last, lowest] at tail
  rw [treeHash, if_neg (by omega), if_neg (by omega), if_neg (by omega), treeHashCnt_eq many sane]
  simp only [Option.bind_eq_bind, Option.bind_some, enough, ← isStart, tail, ne_eq,
    not_true_eq_false, if_false, above.1]
  rfl

theorem treeHash_eq (positive : 0 < hashes.length) (sane : hashes.length ≤ 0x10000000)
    (room : HasRoom stack hashes.length) :
    treeHash stack hashes = some ((merkleTree hashes).root hashPair) := by
  have root := pairUps_hashPair positive
  match hashes, positive with
  | [first], _ =>
      have same := root.symm
      simp [levels, lowestLevel, pairUps, pairUp] at same
      rw [same]
      rfl
  | [first, second], _ =>
      have single : Nat.clog 2 2 = 1 := Nat.clog_eq_one (Nat.le_refl 2) (Nat.le_refl 2)
      have same := root.symm
      simp [levels, lowestLevel, pairUps, pairUp, single] at same
      rw [same]
      rfl
  | first :: second :: third :: rest, positive =>
      obtain ⟨hashes, isHashes⟩ : ∃ hashes, hashes = first :: second :: third :: rest := ⟨_, rfl⟩
      have many : 3 ≤ hashes.length := by
        rw [isHashes, List.length_cons, List.length_cons, List.length_cons]
        omega
      rw [← isHashes] at root sane room ⊢
      exact treeHash_of_three_le many sane room

/-- Where a root is computed, there are hashes, not too many, and room for the array. -/
theorem of_treeHash (computed : treeHash stack hashes = some root) :
    0 < hashes.length ∧ hashes.length ≤ 0x10000000 ∧ HasRoom stack hashes.length ∧
      root = (merkleTree hashes).root hashPair := by
  have bounds : 0 < hashes.length ∧ hashes.length ≤ 0x10000000 ∧
      HasRoom stack hashes.length := by
    rw [treeHash] at computed
    split at computed
    · cases computed
    split at computed
    · exact ⟨by omega, by omega, fun many => by omega⟩
    split at computed
    · exact ⟨by omega, by omega, fun many => by omega⟩
    obtain ⟨cnt, count, rest⟩ := Option.bind_eq_some_iff.mp computed
    obtain ⟨many, sane, rfl⟩ := of_treeHashCnt count
    dsimp only at rest
    split at rest
    · cases rest
    · rename_i enough
      exact ⟨by omega, sane, fun _ => Nat.not_lt.mp enough⟩
  obtain ⟨positive, sane, room⟩ := bounds
  rw [treeHash_eq positive sane room, Option.some.injEq] at computed
  exact ⟨positive, sane, room, computed.symm⟩

/-- **The root of a tree.**  `tree_hash` computes the root of a tree, where the number of hashes
passes its sanity limit and the call stack has room for the array, and in no other case.  The leaves
of the tree are the hashes in their order, at its two lowest levels, and its shape is the same for
all lists of as many hashes. -/
theorem treeHash_eq_root (stack : Nat) (hashes : List Hash) (nonempty : hashes ≠ []) :
    let tree := merkleTree hashes
    let count := hashes.length
    (treeHash stack hashes = if count ≤ 0x10000000 ∧ HasRoom stack count then
      some (tree.root hashPair) else none) ∧
      tree.leaves = hashes ∧
      tree.depths = List.replicate (2 * 2 ^ levels count - count) (levels count) ++
        List.replicate (2 * (count - 2 ^ levels count)) (levels count + 1) ∧
      ∀ hashes' : List Hash, count = hashes'.length → tree.SameShape (merkleTree hashes') := by
  intro tree count
  have positive := List.length_pos_of_ne_nil nonempty
  refine ⟨?_, leaves_merkleTree positive, depths_merkleTree positive,
    fun _ length => sameShape_merkleTree positive length⟩
  split
  case isTrue bounds => exact treeHash_eq positive bounds.1 bounds.2
  case isFalse bounds =>
    rw [Option.eq_none_iff_forall_ne_some]
    intro root computed
    obtain ⟨_, sane, room, _⟩ := of_treeHash computed
    exact bounds ⟨sane, room⟩

/-- A hash of one byte. -/
def hashOf (byte : UInt8) : Hash := ⟨List.replicate 32 byte, List.length_replicate⟩

def fiveHashes : List Hash := [hashOf 1, hashOf 2, hashOf 3, hashOf 4, hashOf 5]

/-- Of five hashes the last two are paired first, in an array of four. -/
theorem treeHash_eq_root_five :
    treeHash 128 fiveHashes =
        some (hashPair (hashPair (hashOf 1) (hashOf 2))
          (hashPair (hashOf 3) (hashPair (hashOf 4) (hashOf 5)))) ∧
      (merkleTree fiveHashes).leaves = fiveHashes ∧
      (merkleTree fiveHashes).depths = [2, 2, 2, 3, 3] ∧
      treeHash 127 fiveHashes = none := by
  obtain ⟨computed, leaves, depths, _⟩ := treeHash_eq_root 128 fiveHashes (by decide)
  obtain ⟨refused, _⟩ := treeHash_eq_root 127 fiveHashes (by decide)
  have tree : merkleTree fiveHashes =
      .node (.node (.leaf (hashOf 1)) (.leaf (hashOf 2)))
        (.node (.leaf (hashOf 3)) (.node (.leaf (hashOf 4)) (.leaf (hashOf 5)))) := by
    decide +kernel
  rw [if_pos (by decide), tree] at computed
  rw [if_neg (by decide)] at refused
  exact ⟨computed, leaves, depths.trans (by decide), refused⟩

end Root

/-! ## What was hashed -/

/-- The messages that are hashed to compute the root. -/
def treeMessages (hashes : List Hash) : List Bytes :=
  ((merkleTree hashes).combined hashPair).map fun pair => pair.1.val ++ pair.2.val

/-- Equal roots of as many hashes come from equal hashes, or from two different messages with one
hash. -/
theorem hashes_eq_or_collides {hashes hashes' : List Hash} (positive : 0 < hashes.length)
    (length : hashes.length = hashes'.length)
    (same : (merkleTree hashes).root hashPair = (merkleTree hashes').root hashPair) :
    hashes = hashes' ∨ Collides cnFastHash (treeMessages hashes) (treeMessages hashes') := by
  have apart : Function.Injective fun pair : Hash × Hash => pair.1.val ++ pair.2.val := by
    intro pair pair' equal
    have first : pair.1.val.length = pair'.1.val.length := by
      rw [pair.1.property, pair'.1.property]
    obtain ⟨sameFirst, sameSecond⟩ := List.append_inj equal first
    exact Prod.ext (Subtype.ext sameFirst) (Subtype.ext sameSecond)
  rcases HashTree.leaves_eq_or_collides (sameShape_merkleTree positive length) same with
    leaves | collides
  · rw [leaves_merkleTree positive, leaves_merkleTree (length ▸ positive)] at leaves
    exact Or.inl leaves
  · exact Or.inr (collides.map apart)

end Hypepool.Cryptonote
