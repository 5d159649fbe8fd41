import Mathlib.Algebra.Order.Ring.Nat
import Mathlib.Data.List.Forall2
import Mathlib.Data.List.GetD

/-!
# Binary trees of hashes

A tree over `leaves` has as its root what `combine` makes of the roots of its two parts.  Trees of
one shape with equal roots have equal leaves, unless two different pairs that were combined on the
way have the same result (`leaves_eq_or_collides`).

A level of such trees is built from the level below by combining neighbours.  `pairUp` is this step
for any `combine`; taken at `HashTree.node` it builds the trees, and taken at their roots it
computes them.
-/

namespace Hypepool.Base

universe u v

variable {α : Type u} {β : Type v}

inductive HashTree (α : Type u)
  | leaf (a : α)
  | node (left right : HashTree α)
  deriving DecidableEq, Inhabited

namespace HashTree

variable {combine : α → α → α}

def leaves : HashTree α → List α
  | leaf a => [a]
  | node left right => left.leaves ++ right.leaves

/-- How deep the leaves stand, in their order. -/
def depths : HashTree α → List Nat
  | leaf _ => [0]
  | node left right => (left.depths ++ right.depths).map Nat.succ

def root (combine : α → α → α) : HashTree α → α
  | leaf a => a
  | node left right => combine (left.root combine) (right.root combine)

/-- The pairs that are combined to compute the root. -/
def combined (combine : α → α → α) : HashTree α → List (α × α)
  | leaf _ => []
  | node left right =>
      (left.root combine, right.root combine) :: (left.combined combine ++ right.combined combine)

/-- The trees branch alike. -/
inductive SameShape : HashTree α → HashTree α → Prop
  | leaf (a b : α) : SameShape (leaf a) (leaf b)
  | node {left right left' right' : HashTree α} (first : SameShape left left')
    (second : SameShape right right') : SameShape (node left right) (node left' right')

end HashTree

/-- Two different arguments, one of each list, with one result. -/
def Collides (f : α → β) (xs xs' : List α) : Prop :=
  ∃ x ∈ xs, ∃ x' ∈ xs', x ≠ x' ∧ f x = f x'

section Collides

variable {γ : Type u} {f : α → β} {xs xs' more more' : List α}

theorem Collides.mono (collides : Collides f xs xs') (inside : xs ⊆ more)
    (inside' : xs' ⊆ more') : Collides f more more' := by
  obtain ⟨x, member, x', member', different, same⟩ := collides
  exact ⟨x, inside member, x', inside' member', different, same⟩

/-- A collision of a function that keeps its arguments apart first. -/
theorem Collides.map {g : γ → α} {ys ys' : List γ} (injective : Function.Injective g)
    (collides : Collides (fun y => f (g y)) ys ys') : Collides f (ys.map g) (ys'.map g) := by
  obtain ⟨y, member, y', member', different, same⟩ := collides
  exact ⟨g y, List.mem_map_of_mem member, g y', List.mem_map_of_mem member',
    fun equal => different (injective equal), same⟩

end Collides

/-- The induction is on the shape: equal roots of two nodes come from equal pairs of roots, and so
the parts have equal roots, or from different ones. -/
theorem HashTree.leaves_eq_or_collides {combine : α → α → α} {t t' : HashTree α}
    (shape : SameShape t t') (same : t.root combine = t'.root combine) :
    t.leaves = t'.leaves ∨
      Collides (fun pair => combine pair.1 pair.2) (t.combined combine) (t'.combined combine) := by
  induction shape with
  | leaf a b => exact Or.inl (congrArg (fun a => [a]) same)
  | @node left right left' right' _ _ ihLeft ihRight =>
      by_cases pairs : (left.root combine, right.root combine) =
          (left'.root combine, right'.root combine)
      · injection pairs with sameLeft sameRight
        rcases ihLeft sameLeft with leavesLeft | collides
        · rcases ihRight sameRight with leavesRight | collides
          · exact Or.inl (by rw [leaves, leaves, leavesLeft, leavesRight])
          · exact Or.inr (collides.mono
              (List.subset_cons_of_subset _ (List.subset_append_right _ _))
              (List.subset_cons_of_subset _ (List.subset_append_right _ _)))
        · exact Or.inr (collides.mono
            (List.subset_cons_of_subset _ (List.subset_append_left _ _))
            (List.subset_cons_of_subset _ (List.subset_append_left _ _)))
      · exact Or.inr ⟨_, List.mem_cons_self, _, List.mem_cons_self, pairs, same⟩

/-! ## Levels -/

/-- Neighbours combined; one that has no neighbour is left as it is. -/
def pairUp (combine : β → β → β) : List β → List β
  | x :: y :: xs => combine x y :: pairUp combine xs
  | xs => xs

/-- What is left when neighbours have been combined `depth` times. -/
def pairUps (combine : β → β → β) : (depth : Nat) → List β → List β
  | 0, xs => xs
  | depth + 1, xs => pairUps combine depth (pairUp combine xs)

section Levels

variable {combine : β → β → β} {xs ys : List β} {depth : Nat}

/-- Induction that takes two neighbours at a time. -/
theorem pair_induction {P : List β → Prop} (nil : P []) (single : ∀ x, P [x])
    (pair : ∀ x y xs, P xs → P (x :: y :: xs)) : ∀ xs, P xs
  | [] => nil
  | [x] => single x
  | x :: y :: xs => pair x y xs (pair_induction nil single pair xs)

theorem length_pairUp : (pairUp combine xs).length = (xs.length + 1) / 2 := by
  induction xs using pair_induction with
  | nil => simp [pairUp]
  | single x => simp [pairUp]
  | pair x y xs ih =>
      rw [pairUp, List.length_cons, ih, List.length_cons, List.length_cons]
      omega

theorem length_pairUps (full : xs.length = 2 ^ depth) : (pairUps combine depth xs).length = 1 := by
  induction depth generalizing xs with
  | zero => exact full
  | succ depth ih =>
      refine ih ?_
      rw [length_pairUp, full, Nat.pow_succ]
      omega

/-- Behind an even number of items the pairs are their own. -/
theorem pairUp_append {even : Nat} (length : xs.length = 2 * even) :
    pairUp combine (xs ++ ys) = pairUp combine xs ++ pairUp combine ys := by
  induction xs using pair_induction generalizing even with
  | nil => rfl
  | single x =>
      rw [List.length_singleton] at length
      omega
  | pair x y xs ih =>
      rw [List.length_cons, List.length_cons] at length
      rw [List.cons_append, List.cons_append, pairUp, pairUp, List.cons_append,
        ih (show xs.length = 2 * (even - 1) by omega)]

/-- A map that respects the combination may be applied before or after it. -/
theorem map_pairUp {γ : Type u} {combine' : γ → γ → γ} {f : β → γ}
    (respects : ∀ x y, f (combine x y) = combine' (f x) (f y)) :
    (pairUp combine xs).map f = pairUp combine' (xs.map f) := by
  induction xs using pair_induction with
  | nil => rfl
  | single x => rfl
  | pair x y xs ih =>
      rw [pairUp, List.map_cons, respects, ih]
      rfl

theorem map_pairUps {γ : Type u} {combine' : γ → γ → γ} {f : β → γ}
    (respects : ∀ x y, f (combine x y) = combine' (f x) (f y)) :
    (pairUps combine depth xs).map f = pairUps combine' depth (xs.map f) := by
  induction depth generalizing xs with
  | zero => rfl
  | succ depth ih => rw [pairUps, pairUps, ih, map_pairUp respects]

theorem flatMap_leaves_pairUp {ts : List (HashTree α)} :
    (pairUp HashTree.node ts).flatMap HashTree.leaves = ts.flatMap HashTree.leaves := by
  induction ts using pair_induction with
  | nil => rfl
  | single t => rfl
  | pair t t' ts ih =>
      rw [pairUp, List.flatMap_cons, ih, List.flatMap_cons, List.flatMap_cons, HashTree.leaves,
        List.append_assoc]

theorem flatMap_leaves_pairUps {ts : List (HashTree α)} :
    (pairUps HashTree.node depth ts).flatMap HashTree.leaves = ts.flatMap HashTree.leaves := by
  induction depth generalizing ts with
  | zero => rfl
  | succ depth ih => rw [pairUps, ih, flatMap_leaves_pairUp]

/-- Where every tree has a neighbour, all leaves get one deeper. -/
theorem flatMap_depths_pairUp {ts : List (HashTree α)} {half : Nat}
    (even : ts.length = 2 * half) :
    (pairUp HashTree.node ts).flatMap HashTree.depths =
      (ts.flatMap HashTree.depths).map Nat.succ := by
  induction ts using pair_induction generalizing half with
  | nil => rfl
  | single t =>
      rw [List.length_singleton] at even
      omega
  | pair t t' ts ih =>
      rw [List.length_cons, List.length_cons] at even
      have rest := ih (show ts.length = 2 * (half - 1) by omega)
      rw [pairUp, List.flatMap_cons, rest, HashTree.depths, List.flatMap_cons, List.flatMap_cons,
        ← List.append_assoc]
      exact List.map_append.symm

theorem flatMap_depths_pairUps {ts : List (HashTree α)} (full : ts.length = 2 ^ depth) :
    (pairUps HashTree.node depth ts).flatMap HashTree.depths =
      (ts.flatMap HashTree.depths).map (· + depth) := by
  induction depth generalizing ts with
  | zero => exact (List.map_id _).symm
  | succ depth ih =>
      have even : ts.length = 2 * 2 ^ depth := by
        rw [full, Nat.pow_succ, Nat.mul_comm]
      have above : (pairUp HashTree.node ts).length = 2 ^ depth := by
        rw [length_pairUp, even]
        omega
      rw [pairUps, ih above, flatMap_depths_pairUp even, List.map_map]
      refine List.map_congr_left fun level _ => ?_
      rw [Function.comp_apply, Nat.succ_add_eq_add_succ]

theorem flatMap_depths_map_leaf {as : List α} :
    (as.map HashTree.leaf).flatMap HashTree.depths = List.replicate as.length 0 := by
  induction as with
  | nil => rfl
  | cons a as ih =>
      rw [List.map_cons, List.flatMap_cons, ih]
      rfl

theorem sameShape_pairUp {ts ts' : List (HashTree α)}
    (shapes : List.Forall₂ HashTree.SameShape ts ts') :
    List.Forall₂ HashTree.SameShape (pairUp HashTree.node ts) (pairUp HashTree.node ts') := by
  induction ts using pair_induction generalizing ts' with
  | nil =>
      cases shapes
      exact .nil
  | single t =>
      cases shapes with
      | cons first rest =>
          cases rest
          exact .cons first .nil
  | pair t u ts ih =>
      cases shapes with
      | cons first rest =>
          cases rest with
          | cons second rest => exact .cons (.node first second) (ih rest)

theorem sameShape_pairUps {ts ts' : List (HashTree α)}
    (shapes : List.Forall₂ HashTree.SameShape ts ts') :
    List.Forall₂ HashTree.SameShape (pairUps HashTree.node depth ts)
      (pairUps HashTree.node depth ts') := by
  induction depth generalizing ts ts' with
  | zero => exact shapes
  | succ depth ih => exact ih (sameShape_pairUp shapes)

/-- Lists of one length, as trees of one leaf each. -/
theorem sameShape_map_leaf {as bs : List α} (length : as.length = bs.length) :
    List.Forall₂ HashTree.SameShape (as.map HashTree.leaf) (bs.map HashTree.leaf) := by
  induction as generalizing bs with
  | nil =>
      obtain rfl := List.eq_nil_of_length_eq_zero length.symm
      exact .nil
  | cons a as ih =>
      cases bs with
      | nil => cases length
      | cons b bs => exact .cons (.leaf a b) (ih (Nat.succ.inj length))

end Levels

/-! ## Combining in place -/

/-- Overwriting the first `count` places of an array with what its pairs combine to: no place is
read after it was written, as the pair of a place stands at or behind it. -/
theorem foldl_set_pairs [Inhabited β] {combine : β → β → β} {xs : List β} {count : Nat}
    (room : 2 * count ≤ xs.length) :
    (List.range count).foldl (fun (xs : List β) j =>
      xs.set j (combine (xs.getD (2 * j) default) (xs.getD (2 * j + 1) default))) xs =
      pairUp combine (xs.take (2 * count)) ++ xs.drop count := by
  induction count with
  | zero => simp [pairUp]
  | succ j ih =>
      have first : 2 * j < xs.length := by omega
      have second : 2 * j + 1 < xs.length := by omega
      have done : (pairUp combine (xs.take (2 * j))).length = j := by
        rw [length_pairUp, List.length_take]
        omega
      have unread (k : Nat) (behind : j ≤ k) :
          (pairUp combine (xs.take (2 * j)) ++ xs.drop j).getD k default = xs.getD k default := by
        rw [List.getD_eq_getElem?_getD, List.getD_eq_getElem?_getD,
          List.getElem?_append_right (by omega), List.getElem?_drop, done,
          Nat.add_sub_cancel' behind]
      have pair : xs.take (2 * (j + 1)) =
          xs.take (2 * j) ++ [xs.getD (2 * j) default, xs.getD (2 * j + 1) default] := by
        rw [List.getD_eq_getElem _ _ first, List.getD_eq_getElem _ _ second, Nat.mul_succ,
          List.take_succ_eq_append_getElem second, List.take_succ_eq_append_getElem first,
          List.append_assoc]
        rfl
      have even : (xs.take (2 * j)).length = 2 * j := List.length_take_of_le (by omega)
      rw [List.range_succ, List.foldl_append, ih (by omega), List.foldl_cons, List.foldl_nil,
        unread _ (by omega), unread _ (by omega), pair, pairUp_append even,
        List.set_append_right _ _ (by omega), done, Nat.sub_self,
        List.drop_eq_getElem_cons (by omega : j < xs.length), List.set_cons_zero,
        List.append_assoc]
      rfl

end Hypepool.Base
