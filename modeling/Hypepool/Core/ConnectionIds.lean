import Hypepool.Base.Positional
import Hypepool.Base.Run
import Hypepool.Core.CorrelationIdGenerator
import Mathlib.Data.List.Nodup
import Mathlib.Logic.Function.Basic

/-!
# Connection ids are unique and sort by age

`GenerateId` writes a non-negative counter value to base 32, in an alphabet that is sorted, so ids
sort like the values.  `GetNextId` is two steps: the atomic increment, and the writing of the value
it obtained, which touches nothing that is shared; other callers may come in between.

* `handedOut_nodup`: fewer than 2^64 calls, interleaved in any way, hand out different ids.
* `connection_ids_sorted_and_unique`: the order of the ids, and the ids of the calls that keep the
  counter below 2^63.
-/

namespace Hypepool.CorrelationIdGenerator

open Base

/-! ## Ids sort like the values they write -/

/-- The symbol of a digit. -/
abbrev symbol (digit : Nat) : NetChar := encode32Chars.getD digit 0

theorem symbol_lt_symbol (i j : Nat) (less : i < j) (inRange : j < 32) : symbol i < symbol j := by
  have all : ∀ j < 32, ∀ i < j, symbol i < symbol j := by decide +kernel
  exact all j inRange i less

theorem symbol_mem {digit : Nat} (inRange : digit < 32) : symbol digit ∈ encode32Chars := by
  have all : ∀ digit < 32, symbol digit ∈ encode32Chars := by decide +kernel
  exact all digit inRange

theorem digit_ofNat (value shift : Nat) : digit value shift = value / 2 ^ shift % 32 := by
  have exact := digit_eq value shift
  have quotient : Int.shiftRight (value : Int) shift = (value / 2 ^ shift : Nat) :=
    Int.shiftRight_eq_div_pow value shift
  rw [quotient] at exact
  omega

/-- A non-negative value is written to base 32. -/
theorem generateId_ofNat (value : Nat) : generateId value = written symbol 32 13 value := by
  simp only [generateId, shifts, List.map_cons, List.map_nil, digit_ofNat, written, Nat.reducePow]

/-- Thirteen base-32 digits reach beyond every `long`. -/
theorem generateId_lt_generateId {x y : Nat} (less : x < y) (bound : y < 0x8000000000000000) :
    generateId x < generateId y := by
  rw [generateId_ofNat, generateId_ofNat]
  refine written_lt_written (by decide) symbol_lt_symbol ?_
  rw [Nat.mod_eq_of_lt (by omega), Nat.mod_eq_of_lt (by omega)]
  exact less

/-! ## Calls in any interleaving -/

/-- The shared `_lastId`, the value each caller has drawn and not written yet, and the ids handed
out so far. -/
structure Generator (Caller : Type) where
  lastId : Int
  drawn : Caller → Option Int := fun _ => none
  handedOut : List NetString := []

/-- The two steps of `GetNextId`. -/
inductive Turn (Caller : Type)
  | increment (caller : Caller)
  | generate (caller : Caller)
  deriving DecidableEq

variable {Caller : Type} [DecidableEq Caller]

def turn (generator : Generator Caller) : Turn Caller → Option (Generator Caller)
  | .increment caller =>
      match generator.drawn caller with
      | none =>
          let lastId := int64 (generator.lastId + 1)
          some { generator with
            lastId := lastId
            drawn := Function.update generator.drawn caller (some lastId) }
      | some _ => none
  | .generate caller =>
      match generator.drawn caller with
      | none => none
      | some id =>
          some { generator with
            drawn := Function.update generator.drawn caller none
            handedOut := generator.handedOut ++ [generateId id] }

/-- How often a schedule draws. -/
def draws (schedule : List (Turn Caller)) : Nat :=
  schedule.countP fun
    | .increment _ => true
    | .generate _ => false

section Turns

variable {generator generator' : Generator Caller} {caller : Caller} {start : Int}

/-- A call that nobody interrupts is `getNextId`. -/
theorem exec_turn_of_alone (idle : generator.drawn caller = none) :
    exec turn generator [.increment caller, .generate caller] =
      some { generator with
        lastId := (getNextId generator.lastId).2
        handedOut := generator.handedOut ++ [(getNextId generator.lastId).1] } := by
  have restored : Function.update generator.drawn caller none = generator.drawn := by
    rw [← idle, Function.update_eq_self]
  simp only [exec_cons, turn, idle, Option.bind_some, Function.update_self, Function.update_idem,
    restored, exec_nil, getNextId]

/-- The enabled turns and what they do. -/
theorem turn_cases {label : Turn Caller} (taken : turn generator label = some generator') :
    (∃ caller, label = .increment caller ∧ generator.drawn caller = none ∧
      generator' = { generator with
        lastId := int64 (generator.lastId + 1)
        drawn := Function.update generator.drawn caller
          (some (int64 (generator.lastId + 1))) }) ∨
    (∃ caller id, label = .generate caller ∧ generator.drawn caller = some id ∧
      generator' = { generator with
        drawn := Function.update generator.drawn caller none
        handedOut := generator.handedOut ++ [generateId id] }) := by
  cases label with
  | increment caller =>
      cases here : generator.drawn caller with
      | none =>
          simp only [turn, here, Option.some.injEq] at taken
          exact Or.inl ⟨caller, rfl, here, taken.symm⟩
      | some id =>
          simp only [turn, here] at taken
          cases taken
  | generate caller =>
      cases here : generator.drawn caller with
      | none =>
          simp only [turn, here] at taken
          cases taken
      | some id =>
          simp only [turn, here, Option.some.injEq] at taken
          exact Or.inr ⟨caller, id, rfl, here, taken.symm⟩

/-- After `n` draws: every id is the one of a draw of its own, and so is every value still to be
written. -/
structure Drawn (start : Int) (n : Nat) (generator : Generator Caller) (numbers : List Nat)
    (waiting : Caller → Option Nat) : Prop where
  lastId : generator.lastId = int64 (start + n)
  handedOut : generator.handedOut = numbers.map (nthId start)
  drawn : generator.drawn = Option.map (fun k : Nat => int64 (start + k)) ∘ waiting
  bound : ∀ k ∈ numbers, k ≤ n
  waitingBound : ∀ caller k, waiting caller = some k → k ≤ n ∧ k ∉ numbers
  nodup : numbers.Nodup
  single : ∀ caller other k, waiting caller = some k → waiting other = some k → caller = other

omit [DecidableEq Caller] in
theorem Drawn.initial (start : Int) (inRange : int64 start = start) :
    Drawn start 0 ({ lastId := start } : Generator Caller) [] fun _ => none :=
  ⟨by rw [Int.natCast_zero, Int.add_zero, inRange], rfl, rfl,
    fun _ member => (nomatch member), fun _ _ none => (nomatch none), List.nodup_nil,
    fun _ _ _ none => (nomatch none)⟩

variable {n : Nat} {numbers : List Nat} {waiting : Caller → Option Nat}

/-- A draw has a number of its own. -/
theorem Drawn.increment (drawn : Drawn start n generator numbers waiting) (caller : Caller) :
    Drawn start (n + 1)
      { generator with
        lastId := int64 (generator.lastId + 1)
        drawn := Function.update generator.drawn caller (some (int64 (generator.lastId + 1))) }
      numbers (Function.update waiting caller (some (n + 1))) := by
  have next : int64 (generator.lastId + 1) = int64 (start + (n + 1 : Nat)) := by
    rw [drawn.lastId]
    unfold int64
    omega
  refine ⟨next, drawn.handedOut, ?_, ?_, ?_, drawn.nodup, ?_⟩
  · rw [Function.comp_update, ← drawn.drawn, Option.map_some, next]
  · exact fun k member => Nat.le_succ_of_le (drawn.bound k member)
  · intro other k here
    by_cases same : other = caller
    · rw [same, Function.update_self] at here
      cases here
      exact ⟨Nat.le_refl _, fun member => Nat.not_succ_le_self n (drawn.bound _ member)⟩
    · rw [Function.update_of_ne same] at here
      have earlier := drawn.waitingBound other k here
      exact ⟨Nat.le_succ_of_le earlier.1, earlier.2⟩
  · intro one other k here there
    have new : ∀ caller, waiting caller ≠ some (n + 1) := fun caller some =>
      Nat.not_succ_le_self n (drawn.waitingBound caller _ some).1
    by_cases same : one = caller
    · by_cases same' : other = caller
      · rw [same, same']
      · rw [same, Function.update_self] at here
        cases here
        rw [Function.update_of_ne same'] at there
        exact (new other there).elim
    · rw [Function.update_of_ne same] at here
      by_cases same' : other = caller
      · rw [same', Function.update_self] at there
        cases there
        exact (new one here).elim
      · rw [Function.update_of_ne same'] at there
        exact drawn.single one other k here there

/-- The id handed out is that of the caller's own draw. -/
theorem Drawn.generate (drawn : Drawn start n generator numbers waiting) {caller : Caller}
    {id : Int} (here : generator.drawn caller = some id) :
    ∃ number, Drawn start n
      { generator with
        drawn := Function.update generator.drawn caller none
        handedOut := generator.handedOut ++ [generateId id] }
      (numbers ++ [number]) (Function.update waiting caller none) := by
  rw [drawn.drawn] at here
  obtain ⟨number, waits, rfl⟩ := Option.map_eq_some_iff.mp here
  obtain ⟨bound, new⟩ := drawn.waitingBound caller number waits
  refine ⟨number, drawn.lastId, ?_, ?_, ?_, ?_, ?_, ?_⟩
  · rw [List.map_append, List.map_singleton, drawn.handedOut, nthId]
  · rw [Function.comp_update, ← drawn.drawn, Option.map_none]
  · intro k member
    rcases List.mem_append.mp member with earlier | last
    · exact drawn.bound k earlier
    · rw [List.mem_singleton.mp last]
      exact bound
  · intro other k there
    have differs : other ≠ caller := by
      intro same
      rw [same, Function.update_self] at there
      cases there
    rw [Function.update_of_ne differs] at there
    refine ⟨(drawn.waitingBound other k there).1, fun member => ?_⟩
    rcases List.mem_append.mp member with earlier | last
    · exact (drawn.waitingBound other k there).2 earlier
    · rw [List.mem_singleton.mp last] at there
      exact differs (drawn.single other caller number there waits)
  · exact List.nodup_append_comm.mp (List.nodup_cons.mpr ⟨new, drawn.nodup⟩)
  · intro one other k first second
    have differs : ∀ {one : Caller}, Function.update waiting caller none one = some k →
        waiting one = some k := by
      intro one first
      by_cases same : one = caller
      · rw [same, Function.update_self] at first
        cases first
      · rwa [Function.update_of_ne same] at first
    exact drawn.single one other k (differs first) (differs second)

theorem Drawn.run {schedule : List (Turn Caller)}
    (drawn : Drawn start n generator numbers waiting)
    (run : exec turn generator schedule = some generator') :
    ∃ numbers' waiting', Drawn start (n + draws schedule) generator' numbers' waiting' := by
  induction schedule generalizing generator n numbers waiting with
  | nil =>
      cases Option.some.inj run
      exact ⟨numbers, waiting, drawn⟩
  | cons label schedule ih =>
      obtain ⟨between, taken, rest⟩ := exec_cons_eq_some.mp run
      rcases turn_cases taken with ⟨caller, rfl, -, rfl⟩ | ⟨caller, id, rfl, here, rfl⟩
      · have more : draws (.increment caller :: schedule) = 1 + draws schedule :=
          (List.countP_cons_of_pos rfl).trans (Nat.add_comm _ _)
        rw [more, ← Nat.add_assoc]
        exact ih (drawn.increment caller) rest
      · obtain ⟨number, after⟩ := drawn.generate here
        exact ih after rest

/-- Fewer than 2^64 draws hand out different ids, whatever the counter started from. -/
theorem handedOut_nodup {schedule : List (Turn Caller)} (inRange : int64 start = start)
    (few : draws schedule < 0x10000000000000000)
    (run : exec turn { lastId := start } schedule = some generator') :
    generator'.handedOut.Nodup := by
  obtain ⟨numbers, waiting, drawn⟩ := (Drawn.initial start inRange).run run
  rw [drawn.handedOut]
  refine List.Nodup.map_on ?_ drawn.nodup
  intro j inJ k inK same
  have boundJ := drawn.bound j inJ
  have boundK := drawn.bound k inK
  exact nthId_injective (by omega) (by omega) same

end Turns

/-- **Ids sort by age, and no two connections get the same.**  In ordinal order an id comes before
the id of every greater value; and the calls that draw values below 2^63 hand out different ids,
however they interleave. -/
theorem connection_ids_sorted_and_unique :
    (∀ x y : Int, 0 ≤ x → x < y → y < 0x8000000000000000 →
      (∀ id ∈ [generateId x, generateId y],
        id.length = 13 ∧ ∀ letter ∈ id, letter ∈ encode32Chars) ∧
      generateId x ≠ generateId y ∧ generateId x < generateId y) ∧
    ∀ (Caller : Type) [DecidableEq Caller] (start : Int) (schedule : List (Turn Caller))
      (generator : Generator Caller), 0 ≤ start → start + draws schedule < 0x8000000000000000 →
      exec turn { lastId := start } schedule = some generator → generator.handedOut.Nodup := by
  constructor
  · intro x y nonneg less bound
    lift x to Nat using nonneg
    lift y to Nat using by omega
    have sorted : generateId x < generateId y := generateId_lt_generateId (by omega) (by omega)
    refine ⟨?_, ?_, sorted⟩
    · intro id member
      obtain ⟨value, rfl⟩ : ∃ value : Nat, id = generateId value := by
        rcases List.mem_pair.mp member with rfl | rfl
        · exact ⟨x, rfl⟩
        · exact ⟨y, rfl⟩
      rw [generateId_ofNat]
      refine ⟨written_length, fun letter inId => ?_⟩
      obtain ⟨digit, inRange, rfl⟩ := mem_written (by decide) inId
      exact symbol_mem inRange
    · intro same
      rw [same] at sorted
      exact List.lt_irrefl _ sorted
  · intro Caller _ start schedule generator nonneg below run
    have inRange : int64 start = start := by
      unfold int64
      omega
    exact handedOut_nodup inRange (by omega) run

/-- Two callers whose calls overlap. -/
theorem connection_ids_of_overlapping_calls :
    generateId 31 < generateId 32 ∧
      ∃ generator, exec turn ({ lastId := 0 } : Generator Bool)
          [.increment true, .increment false, .generate false, .increment false, .generate true,
            .generate false] = some generator ∧
        generator.handedOut = [generateId 2, generateId 1, generateId 3] ∧
        generator.handedOut.Nodup :=
  ⟨(connection_ids_sorted_and_unique.1 31 32 (by decide) (by decide) (by decide)).2.2,
    _, rfl, rfl, connection_ids_sorted_and_unique.2 Bool 0
      [.increment true, .increment false, .generate false, .increment false, .generate true,
        .generate false] _ (by decide) (by decide) rfl⟩

end Hypepool.CorrelationIdGenerator
