import Hypepool.Base.AdvancingCell
import Hypepool.Common.JobCounter

/-!
# Job ids under concurrent use

`GetNext` reads `_last` in a step of its own after it has incremented it, and what other callers do
in between shows in the id it returns.

* `jobIds_of_apart`: if no call changes the counter between the increment and the read of another,
  and none increments it at its maximum, the ids are in range and different; and in a run that ends
  with no call under way, and has no more calls than there are ids, they are different only then.
* `jobIds_of_two_callers`: two callers that both increment before they read get the same id.
-/

namespace Hypepool.JobCounter

open Base

variable {ι : Type} [DecidableEq ι]

/-- The counter and its calls. -/
abbrev Callers (ι : Type) := AdvancingCell ι JobCounter

/-- One of the three steps of `GetNext`. -/
def callStep (s : Callers ι) (label : AdvanceStep ι) : Option (Callers ι) :=
  advanceStep compareExchange increment s label

/-- The ids returned so far. -/
def ids (s : Callers ι) : List Int := s.obtained.map fun entry => entry.2.last

/-- A call does not change the counter between the increment and the read of another, nor increment
it at its maximum. -/
def Apart (s : Callers ι) : AdvanceStep ι → Prop
  | .prepare _ => s.value.last ≠ maxValue ∨ NoneReading s
  | .advance _ => s.value.last ≠ maxValue ∧ NoneReading s
  | .read _ => True

instance [Fintype ι] (s : Callers ι) : (label : AdvanceStep ι) → Decidable (Apart s label)
  | .prepare _ => inferInstanceAs (Decidable (s.value.last ≠ maxValue ∨ NoneReading s))
  | .advance _ => inferInstanceAs (Decidable (s.value.last ≠ maxValue ∧ NoneReading s))
  | .read _ => inferInstanceAs (Decidable True)

/-- A call that nobody interrupts is `getNext`. -/
theorem exec_callStep_of_alone {s : Callers ι} {call : ι} (idle : s.stage call = .idle) :
    ∃ t, exec callStep s [.prepare call, .advance call, .read call] = some t ∧
      ids t = ids s ++ [(getNext s.value).1] ∧ t.value = (getNext s.value).2 := by
  refine ⟨_, exec_of_alone idle, ?_, rfl⟩
  rw [ids, List.map_append]
  rfl

section Steps

variable {s t : Callers ι} {label : AdvanceStep ι}

theorem compareExchange_of_ne {counter : JobCounter} (below : counter.last ≠ maxValue) :
    counter.compareExchange = counter := if_neg below

theorem increment_of_lt {counter : JobCounter} (lower : 0 ≤ counter.last)
    (upper : counter.last < maxValue) : counter.increment.last = counter.last + 1 := by
  unfold maxValue at upper
  exact int32_of_range (by omega) (by omega)

omit [DecidableEq ι] in
theorem Apart.undisturbed (apart : Apart s label) : Undisturbed compareExchange s label := by
  cases label with
  | prepare call => exact apart.imp_left compareExchange_of_ne
  | advance call => exact apart.2
  | read call => trivial

/-! ## Ids in range -/

/-- The counter has not wrapped around, and every id written is positive. -/
structure InRange (s : Callers ι) : Prop where
  counter : 0 ≤ s.value.last ∧ s.value.last ≤ maxValue
  written : ∀ entry ∈ s.written, 1 ≤ entry.2.last ∧ entry.2.last ≤ maxValue

omit [DecidableEq ι] in
theorem InRange.initial : InRange ({ value := {} } : Callers ι) := by
  have start : (0 : Int) ≤ 0 ∧ (0 : Int) ≤ maxValue := by decide
  exact ⟨start, fun _ member => (nomatch member)⟩

theorem InRange.step (inRange : InRange s) (apart : Apart s label)
    (taken : callStep s label = some t) : InRange t := by
  obtain ⟨lower, upper⟩ := inRange.counter
  rcases advanceStep_cases taken with ⟨call, rfl, -, rfl⟩ | ⟨call, rfl, -, rfl⟩ |
    ⟨call, rfl, -, rfl⟩
  · refine ⟨?_, inRange.written⟩
    by_cases maxed : s.value.last = maxValue
    · have reset : s.value.compareExchange.last = 0 := by rw [compareExchange, if_pos maxed]
      simp only [reset]
      decide
    · rw [compareExchange_of_ne maxed]
      exact inRange.counter
  · have unmaxed := apart.1
    have below : s.value.last < maxValue := by omega
    have next := increment_of_lt lower below
    have new : 1 ≤ s.value.increment.last ∧ s.value.increment.last ≤ maxValue := by omega
    refine ⟨⟨Int.le_trans (by decide) new.1, new.2⟩, fun entry member => ?_⟩
    rcases List.mem_append.mp member with earlier | last
    · exact inRange.written entry earlier
    · rw [List.mem_singleton.mp last]
      exact new
  · exact ⟨inRange.counter, inRange.written⟩

/-! ## As many calls as there are ids -/

/-- The counter counts the increments, and nothing that was read exceeds it. -/
structure Counts (s : Callers ι) : Prop where
  counter : s.value.last = s.written.length
  written : s.written.map (fun entry => entry.2.last) =
    (List.range s.written.length).map fun k : Nat => (k : Int) + 1
  bound : ∀ id ∈ ids s, id ≤ s.value.last

/-- The counter counts as long as there have been no more calls than ids. -/
def CountsWhileFew (s : Callers ι) : Prop := (s.begun.length : Int) ≤ maxValue → Counts s

omit [DecidableEq ι] in
theorem CountsWhileFew.initial : CountsWhileFew ({ value := {} } : Callers ι) :=
  fun _ => ⟨rfl, rfl, fun _ member => (nomatch member)⟩

/-- Before the last id is written the compare-exchange changes nothing, and the increment adds
one. -/
theorem CountsWhileFew.step (counts : CountsWhileFew s) (enrolled : Enrolled s)
    (taken : callStep s label = some t) : CountsWhileFew t := by
  rcases advanceStep_cases taken with ⟨call, rfl, -, rfl⟩ | ⟨call, rfl, prepared, rfl⟩ |
    ⟨call, rfl, -, rfl⟩
  · intro few
    rw [List.length_append, List.length_singleton] at few
    have counted := counts (by omega)
    have counter := counted.counter
    have written := enrolled.written_le_begun
    have below : s.value.last ≠ maxValue := by omega
    rw [compareExchange_of_ne below]
    exact ⟨counted.counter, counted.written, counted.bound⟩
  · intro few
    have counted := counts few
    have counter := counted.counter
    have written := enrolled.written_lt_begun prepared
    have few' : (s.begun.length : Int) ≤ maxValue := few
    have next : s.value.increment.last = s.value.last + 1 := increment_of_lt (by omega) (by omega)
    refine ⟨?_, ?_, fun id member => ?_⟩
    · show s.value.increment.last = _
      rw [List.length_append, List.length_singleton, next, counter]
      rfl
    · rw [List.map_append, counted.written, List.map_singleton, List.length_append,
        List.length_singleton, List.range_succ, List.map_append, List.map_singleton, next, counter]
    · show id ≤ s.value.increment.last
      have earlier := counted.bound id member
      omega
  · intro few
    have counted := counts few
    refine ⟨counted.counter, counted.written, fun id member => ?_⟩
    rw [ids, List.map_append] at member
    rcases List.mem_append.mp member with earlier | last
    · exact counted.bound id earlier
    · exact Int.le_of_eq (List.mem_singleton.mp last)

/-- What holds of every run. -/
structure Sound (s : Callers ι) : Prop where
  enrolled : Enrolled s
  counts : CountsWhileFew s

omit [DecidableEq ι] in
theorem Sound.initial : Sound ({ value := {} } : Callers ι) :=
  ⟨Enrolled.initial _, CountsWhileFew.initial⟩

theorem Sound.step (sound : Sound s) (taken : callStep s label = some t) : Sound t :=
  ⟨sound.enrolled.step taken, sound.counts.step sound.enrolled taken⟩

omit [DecidableEq ι] in
/-- The ids written by no more calls than there are ids are different. -/
theorem Counts.nodup (counts : Counts s) : (s.written.map fun entry => entry.2.last).Nodup := by
  rw [counts.written]
  refine List.Nodup.map (fun j k same => ?_) List.nodup_range
  omega

/-! ## Overlapping calls -/

theorem begun_length_le (taken : callStep s label = some t) :
    s.begun.length ≤ t.begun.length := by
  rcases advanceStep_cases taken with ⟨call, rfl, -, rfl⟩ | ⟨call, rfl, -, rfl⟩ |
    ⟨call, rfl, -, rfl⟩
  · rw [List.length_append]
    exact Nat.le_add_right _ _
  · exact Nat.le_refl _
  · exact Nat.le_refl _

theorem begun_length_le_run {schedule : List (AdvanceStep ι)}
    (run : exec callStep s schedule = some t) : s.begun.length ≤ t.begun.length :=
  exec_invariant (fun u => s.begun.length ≤ u.begun.length)
    (fun _ _ _ le taken => Nat.le_trans le (begun_length_le taken)) (Nat.le_refl _) run

/-- The counter has passed `low`, and every id read since `early` is greater. -/
structure Beyond (low : Int) (early : List (ι × JobCounter)) (s : Callers ι) : Prop where
  passed : low < s.value.last
  late : ∃ late, s.obtained = early ++ late ∧ ∀ entry ∈ late, low < entry.2.last

theorem Beyond.step {low : Int} {early : List (ι × JobCounter)} (sound : Sound s)
    (beyond : Beyond low early s) (few : (t.begun.length : Int) ≤ maxValue)
    (taken : callStep s label = some t) : Beyond low early t := by
  have grown := begun_length_le taken
  have counted := sound.counts (by omega)
  have counted' := (sound.step taken).counts few
  have passed := beyond.passed
  have before := counted.counter
  have after := counted'.counter
  obtain ⟨late, whole, greater⟩ := beyond.late
  rcases advanceStep_cases taken with ⟨call, rfl, -, rfl⟩ | ⟨call, rfl, -, rfl⟩ |
    ⟨call, rfl, -, rfl⟩
  · have unchanged : s.value.compareExchange.last = s.written.length := after
    exact ⟨Int.lt_of_lt_of_le passed (Int.le_of_eq (before.trans unchanged.symm)), late, whole,
      greater⟩
  · rw [List.length_append] at after
    exact ⟨by omega, late, whole, greater⟩
  · refine ⟨passed, late ++ [(call, s.value)], ?_, fun entry member => ?_⟩
    · rw [whole, List.append_assoc]
    · rcases List.mem_append.mp member with earlier | last
      · exact greater entry earlier
      · rw [List.mem_singleton.mp last]
        exact passed

theorem Beyond.run {low : Int} {early : List (ι × JobCounter)} {schedule : List (AdvanceStep ι)}
    (sound : Sound s) (beyond : Beyond low early s) (run : exec callStep s schedule = some t)
    (few : (t.begun.length : Int) ≤ maxValue) : Sound t ∧ Beyond low early t := by
  have both := exec_invariant
    (fun u => Sound u ∧ ((u.begun.length : Int) ≤ maxValue → Beyond low early u))
    (fun u label v both taken => ⟨both.1.step taken, fun few =>
      Beyond.step both.1
        (both.2 (Int.le_trans (Int.ofNat_le.mpr (begun_length_le taken)) few)) few taken⟩)
    ⟨sound, fun _ => beyond⟩ run
  exact ⟨both.1, both.2 few⟩

/-- Different ids that lie above `low` and do not exceed `high` are at most so many. -/
theorem length_le_of_nodup {numbers : List Int} {low high : Int} (nodup : numbers.Nodup)
    (range : ∀ id ∈ numbers, low < id ∧ id ≤ high) : numbers.length ≤ (high - low).toNat := by
  have subset : numbers ⊆ (List.range (high - low).toNat).map fun k : Nat => low + 1 + k := by
    intro id member
    have bounds := range id member
    refine List.mem_map.mpr ⟨(id - low - 1).toNat, List.mem_range.mpr ?_, ?_⟩
    · omega
    · omega
  have le := (nodup.subperm subset).length_le
  rwa [List.length_map, List.length_range] at le

omit [DecidableEq ι] in
/-- Fewer than `low` calls had read when the counter passed `low`; so the others cannot all have
read different ids. -/
theorem Beyond.not_nodup {low : Int} {early : List (ι × JobCounter)} (sound : Sound t)
    (beyond : Beyond low early t) (few : (t.begun.length : Int) ≤ maxValue)
    (complete : NoneReading t) (short : (early.length : Int) < low) : ¬ (ids t).Nodup := by
  intro nodup
  have counted := sound.counts few
  have counter := counted.counter
  have all := sound.enrolled.length_obtained complete
  have passed := beyond.passed
  obtain ⟨late, whole, greater⟩ := beyond.late
  have split : ids t = early.map (fun entry => entry.2.last) ++
      late.map fun entry => entry.2.last := by
    rw [ids, whole, List.map_append]
  have lateRange : ∀ id ∈ late.map (fun entry => entry.2.last),
      low < id ∧ id ≤ t.value.last := by
    intro id member
    obtain ⟨entry, inLate, rfl⟩ := List.mem_map.mp member
    refine ⟨greater entry inLate, counted.bound _ ?_⟩
    rw [split]
    exact List.mem_append_right _ member
  rw [split] at nodup
  have lateFew := length_le_of_nodup (List.Nodup.of_append_right nodup) lateRange
  rw [List.length_map] at lateFew
  rw [whole, List.length_append] at all
  omega

/-- Where the ids of a run that ends with no call under way are different, its calls were apart: an
increment in front of a read leaves too few ids for the calls still to read. -/
theorem apart_of_nodup {schedule : List (AdvanceStep ι)} (sound : Sound s)
    (run : exec callStep s schedule = some t) (few : (t.begun.length : Int) ≤ maxValue)
    (complete : NoneReading t) (nodup : (ids t).Nodup) : Guarded callStep Apart s schedule := by
  induction schedule generalizing s with
  | nil => trivial
  | cons label schedule ih =>
      obtain ⟨u, taken, rest⟩ := exec_cons_eq_some.mp run
      have grown := begun_length_le taken
      have grown' := begun_length_le_run rest
      have counter := (sound.counts (by omega)).counter
      refine ⟨?_, fun v taken' => ?_⟩
      · rcases advanceStep_cases taken with ⟨call, rfl, -, rfl⟩ | ⟨call, rfl, prepared, rfl⟩ |
          ⟨call, rfl, -, rfl⟩
        · have written := sound.enrolled.written_le_begun
          rw [List.length_append, List.length_singleton] at grown'
          exact Or.inl (by omega)
        · have written := sound.enrolled.written_lt_begun prepared
          refine ⟨by omega, fun reader reading => ?_⟩
          have fewer := sound.enrolled.obtained_lt_written reading
          have next : s.value.increment.last = s.value.last + 1 :=
            increment_of_lt (by omega) (by omega)
          have beyond : Beyond s.value.last s.obtained
              { s with
                value := s.value.increment
                stage := Function.update s.stage call .advanced
                written := s.written ++ [(call, s.value.increment)] } :=
            ⟨Int.lt_of_lt_of_le (Int.lt_succ _) (Int.le_of_eq next.symm), [],
              (List.append_nil _).symm, fun _ member => (nomatch member)⟩
          obtain ⟨final, late⟩ := Beyond.run (sound.step taken) beyond rest few
          exact late.not_nodup final few complete (by omega) nodup
        · trivial
      · cases Option.some.inj (taken.symm.trans taken')
        exact ih (sound.step taken) rest

end Steps

/-- **Job ids under concurrent use.**  In a run of calls that are apart every id is in range, and no
more calls than there are ids get different ones.  When nobody is about to read, such calls get
different ids only if they were apart. -/
theorem jobIds_of_apart {schedule : List (AdvanceStep ι)} {final : Callers ι}
    (run : exec callStep { value := {} } schedule = some final) :
    (Guarded callStep Apart { value := {} } schedule →
      (∀ id ∈ ids final, 1 ≤ id ∧ id ≤ maxValue) ∧
        ((final.begun.length : Int) ≤ maxValue → (ids final).Nodup)) ∧
    (NoneReading final → (final.begun.length : Int) ≤ maxValue → (ids final).Nodup →
      Guarded callStep Apart { value := {} } schedule) := by
  constructor
  · intro apart
    have inOrder := inOrder_run (InOrder.initial _) (apart.mono fun _ _ => Apart.undisturbed) run
    have inRange := exec_invariant_of_guarded InRange (fun _ _ _ => InRange.step) InRange.initial
      apart run
    have sound := exec_invariant Sound (fun _ _ _ => Sound.step) Sound.initial run
    have own := inOrder.obtained_of_written
    constructor
    · intro id member
      obtain ⟨entry, obtained, rfl⟩ := List.mem_map.mp member
      exact inRange.written entry (own.subset obtained)
    · intro few
      exact (sound.counts few).nodup.sublist (own.sublist.map _)
  · intro complete few nodup
    exact apart_of_nodup Sound.initial run few complete nodup

/-- A second caller is through with its compare-exchange before the first returns. -/
theorem jobIds_of_two_callers_apart :
    ∃ final : Callers Bool, exec callStep { value := {} }
        [.prepare true, .prepare false, .advance true, .read true, .advance false, .read false] =
        some final ∧ ids final = [1, 2] ∧ (ids final).Nodup := by
  have run : (exec callStep ({ value := {} } : Callers Bool)
      [.prepare true, .prepare false, .advance true, .read true, .advance false, .read false]).map
        (fun s => (ids s, s.begun.length)) = some ([1, 2], 2) := by decide +kernel
  obtain ⟨final, run, same⟩ := Option.map_eq_some_iff.mp run
  obtain ⟨sameIds, two⟩ := Prod.mk.inj same
  refine ⟨final, run, sameIds, ((jobIds_of_apart run).1 (by decide +kernel)).2 ?_⟩
  rw [two]
  decide

/-- Both increment before either reads. -/
theorem jobIds_of_two_callers :
    ∃ final : Callers Bool, exec callStep { value := {} }
        [.prepare true, .prepare false, .advance true, .advance false, .read true, .read false] =
        some final ∧ final.begun.length = 2 ∧ ids final = [2, 2] ∧ ¬ (ids final).Nodup := by
  have run : (exec callStep ({ value := {} } : Callers Bool)
      [.prepare true, .prepare false, .advance true, .advance false, .read true, .read false]).map
        (fun s => (ids s, s.begun.length)) = some ([2, 2], 2) := by decide +kernel
  obtain ⟨final, run, same⟩ := Option.map_eq_some_iff.mp run
  obtain ⟨sameIds, two⟩ := Prod.mk.inj same
  refine ⟨final, run, two, sameIds, ?_⟩
  rw [sameIds]
  decide

end Hypepool.JobCounter
