import Hypepool.Net.Runtime

/-!
# `JobCounter`

`GetNext` is three steps on the shared field `_last`: a compare-exchange, an atomic increment and
a separate read.  Run by one caller, without another in between, they are `getNext`.
-/

namespace Hypepool

/-- The field `_last`. -/
structure JobCounter where
  last : Int := 0
  deriving DecidableEq

namespace JobCounter

/-- `int.MaxValue`. -/
def maxValue : Int := 0x7fffffff

/-- `Interlocked.CompareExchange(ref _last, 0, int.MaxValue)`. -/
def compareExchange (counter : JobCounter) : JobCounter :=
  if counter.last = maxValue then { counter with last := 0 } else counter

/-- `Interlocked.Increment(ref _last)`. -/
def increment (counter : JobCounter) : JobCounter :=
  { counter with last := int32 (counter.last + 1) }

/-- `GetNext` by one caller at a time. -/
def getNext (counter : JobCounter) : Int × JobCounter :=
  let counter := counter.compareExchange.increment
  (counter.last, counter)

/-- Below the maximum `GetNext` counts on. -/
theorem getNext_of_lt {counter : JobCounter} (lower : 0 ≤ counter.last)
    (upper : counter.last < maxValue) :
    counter.getNext = (counter.last + 1, ⟨counter.last + 1⟩) := by
  unfold maxValue at upper
  have below : counter.last ≠ maxValue := by
    unfold maxValue
    omega
  rw [getNext, compareExchange, if_neg below, increment, int32_of_range (by omega) (by omega)]

/-- Every id handed out is positive, also where the counter starts again. -/
theorem getNext_mem_range {counter : JobCounter} (lower : 0 ≤ counter.last)
    (upper : counter.last ≤ maxValue) :
    1 ≤ counter.getNext.1 ∧ counter.getNext.1 ≤ maxValue := by
  by_cases maxed : counter.last = maxValue
  · have again : counter.getNext = (1, ⟨1⟩) := by
      have one : int32 (0 + 1) = 1 := int32_of_range (by decide) (by decide)
      rw [getNext, compareExchange, if_pos maxed, increment, one]
    rw [again]
    exact ⟨by decide, by decide⟩
  · rw [getNext_of_lt lower (by omega)]
    exact ⟨by omega, by omega⟩

end JobCounter

end Hypepool
