import Hypepool.Net.Runtime

/-!
# Buffers shared by the components

`PooledArraySegment` and the search of `ArrayExtensions`.
-/

namespace Hypepool

/-- A window of a rented array. -/
structure PooledArraySegment where
  array : RentedArray
  offset : Nat
  size : Nat
  deriving DecidableEq

/-- `PooledArraySegment.ToArray`: the bytes at `Array[Offset .. Offset+Size)`. -/
def PooledArraySegment.toArray (segment : PooledArraySegment) : Bytes :=
  (segment.array.data.drop segment.offset).take segment.size

/-- `ArrayExtensions.IndexOf`; `none` is the source's `-1`. -/
def indexOf (arr : Bytes) (val : UInt8) (start : Nat) : (count : Nat) → Option Nat
  | 0 => none
  | count + 1 => if arr[start]? = some val then some start else indexOf arr val (start + 1) count

theorem indexOf_eq_none {arr : Bytes} {val : UInt8} {start count : Nat}
    (within : start + count ≤ arr.length) :
    indexOf arr val start count = none ↔ val ∉ (arr.drop start).take count := by
  induction count generalizing start with
  | zero => simp only [indexOf, List.take_zero, List.not_mem_nil, not_false_eq_true]
  | succ count ih =>
      have bound : start < arr.length := by omega
      rw [indexOf, List.drop_eq_getElem_cons bound, List.take_succ_cons, List.mem_cons, not_or,
        ← ih (by omega), List.getElem?_eq_getElem bound]
      by_cases here : arr[start] = val
      · simp only [here, if_true, reduceCtorEq, not_true_eq_false, false_and]
      · simp only [Option.some.injEq, here, if_false, Ne.symm here, not_false_eq_true, true_and]

theorem indexOf_eq_some {arr : Bytes} {val : UInt8} {start count index : Nat}
    (within : start + count ≤ arr.length) (found : indexOf arr val start count = some index) :
    start ≤ index ∧ index < start + count ∧ arr[index]? = some val ∧
      val ∉ (arr.drop start).take (index - start) := by
  induction count generalizing start with
  | zero => cases found
  | succ count ih =>
      have bound : start < arr.length := by omega
      rw [indexOf] at found
      split at found
      · rename_i here
        cases Option.some.inj found
        exact ⟨Nat.le_refl _, by omega, here, by simp⟩
      · rename_i elsewhere
        obtain ⟨lower, upper, hit, before⟩ := ih (by omega) found
        refine ⟨by omega, by omega, hit, ?_⟩
        have step : index - start = index - (start + 1) + 1 := by omega
        rw [step, List.drop_eq_getElem_cons bound, List.take_succ_cons, List.mem_cons, not_or]
        refine ⟨fun here => elsewhere ?_, before⟩
        rw [List.getElem?_eq_getElem bound, ← here]

end Hypepool
