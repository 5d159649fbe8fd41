import Mathlib.Data.Fintype.Card
import Mathlib.Data.List.Nodup
import Mathlib.Logic.Function.Iterate
import Hypepool.Base.Run

/-!
# Read-modify-write on a shared cell

Any number of callers advance one cell by `next`.  A call is not atomic: it reads the cell in one
step and writes `next` of what it read in another.

* `exclusive_run`: if no call reads while another is between its two steps, the callers obtain the
  successive iterates of `next`.
* `Sequential.nodup`: as long as these differ, so do the values the callers obtain.
* `exclusive_of_nodup`: conversely, where a call does read in between, two callers obtain the same
  value once both have written.
-/

namespace Hypepool.Base

universe u v

variable {ι : Type u} {α : Type v}

/-- How far a call has come. -/
inductive CallPhase (α : Type v)
  | idle
  | holding (seen : α)
  | done
  deriving DecidableEq

/-- Between its read and its write. -/
def CallPhase.isHolding : CallPhase α → Bool
  | .holding _ => true
  | _ => false

/-- The cell, its callers, and the values they obtained, in the order of their writes. -/
structure SharedCell (ι : Type u) (α : Type v) where
  value : α
  phase : ι → CallPhase α := fun _ => .idle
  obtained : List (ι × α) := []

inductive CellStep (ι : Type u)
  | read (call : ι)
  | write (call : ι)
  deriving DecidableEq

variable [DecidableEq ι]

def SharedCell.setPhase (s : SharedCell ι α) (call : ι) (phase : CallPhase α) : SharedCell ι α :=
  { s with phase := fun other => if other = call then phase else s.phase other }

/-- One step of one call. -/
def cellStep (next : α → α) (s : SharedCell ι α) : CellStep ι → Option (SharedCell ι α)
  | .read call =>
      match s.phase call with
      | .idle => some (s.setPhase call (.holding s.value))
      | _ => none
  | .write call =>
      match s.phase call with
      | .holding seen =>
          some { s.setPhase call .done with
            value := next seen
            obtained := s.obtained ++ [(call, next seen)] }
      | _ => none

/-- A read finds no other call between its read and its write. -/
def Exclusive (s : SharedCell ι α) : CellStep ι → Prop
  | .read _ => ∀ other, (s.phase other).isHolding = false
  | .write _ => True

instance [Fintype ι] (s : SharedCell ι α) : (label : CellStep ι) → Decidable (Exclusive s label)
  | .read _ => inferInstanceAs (Decidable (∀ other, (s.phase other).isHolding = false))
  | .write _ => inferInstanceAs (Decidable True)

/-- Every call that has read has also written. -/
def Complete (s : SharedCell ι α) : Prop := ∀ call, (s.phase call).isHolding = false

section Phase

variable {s : SharedCell ι α} {call other : ι} {phase : CallPhase α}

@[simp] theorem phase_setPhase_self : (s.setPhase call phase).phase call = phase := if_pos rfl

omit [DecidableEq ι] in
theorem isHolding_of_holding {seen : α} (held : s.phase call = .holding seen) :
    (s.phase call).isHolding = true := by
  rw [held]
  rfl

theorem phase_setPhase_of_ne (differs : other ≠ call) :
    (s.setPhase call phase).phase other = s.phase other := if_neg differs

/-- The enabled steps and what they do. -/
theorem cellStep_cases {next : α → α} {label : CellStep ι} {t : SharedCell ι α}
    (taken : cellStep next s label = some t) :
    (∃ call, label = .read call ∧ s.phase call = .idle ∧
      t = s.setPhase call (.holding s.value)) ∨
    (∃ call seen, label = .write call ∧ s.phase call = .holding seen ∧
      t = { s.setPhase call .done with
        value := next seen
        obtained := s.obtained ++ [(call, next seen)] }) := by
  cases label with
  | read call =>
      cases here : s.phase call with
      | idle =>
          rw [cellStep, here] at taken
          exact Or.inl ⟨call, rfl, here, (Option.some.inj taken).symm⟩
      | _ => rw [cellStep, here] at taken; cases taken
  | write call =>
      cases here : s.phase call with
      | holding seen =>
          rw [cellStep, here] at taken
          exact Or.inr ⟨call, seen, rfl, here, (Option.some.inj taken).symm⟩
      | _ => rw [cellStep, here] at taken; cases taken

end Phase

/-! ## Exclusive runs -/

/-- The cell after calls that never overlapped. -/
structure Sequential (next : α → α) (start : α) (s : SharedCell ι α) : Prop where
  value : s.value = next^[s.obtained.length] start
  obtained : s.obtained.map Prod.snd =
    (List.range s.obtained.length).map fun k => next^[k + 1] start
  callers : (s.obtained.map Prod.fst).Nodup
  done : ∀ call ∈ s.obtained.map Prod.fst, s.phase call = .done
  seen : ∀ call seen, s.phase call = .holding seen → seen = s.value
  single : ∀ call other seen seen', s.phase call = .holding seen →
    s.phase other = .holding seen' → call = other

section Exclusive

variable {next : α → α} {start : α} {s t : SharedCell ι α} {label : CellStep ι}

omit [DecidableEq ι] in
theorem Sequential.initial : Sequential next start ({ value := start } : SharedCell ι α) :=
  ⟨rfl, rfl, List.nodup_nil, fun _ member => (nomatch member), fun _ _ held => (nomatch held),
    fun _ _ _ _ held => (nomatch held)⟩

/-- The reader is the only call between its steps. -/
theorem Sequential.read {call : ι} (sequential : Sequential next start s)
    (alone : ∀ other, (s.phase other).isHolding = false) (idle : s.phase call = .idle) :
    Sequential next start (s.setPhase call (.holding s.value)) := by
  have others : ∀ other seen, (s.setPhase call (.holding s.value)).phase other =
      .holding seen → other = call := by
    intro other seen held
    by_cases same : other = call
    · exact same
    · rw [phase_setPhase_of_ne same] at held
      cases (isHolding_of_holding held).symm.trans (alone other)
  refine ⟨sequential.value, sequential.obtained, sequential.callers, ?_, ?_, ?_⟩
  · intro other member
    have isDone := sequential.done other member
    have differs : other ≠ call := by
      intro same
      subst same
      rw [idle] at isDone
      cases isDone
    rw [phase_setPhase_of_ne differs]
    exact isDone
  · intro other seen held
    cases others other seen held
    rw [phase_setPhase_self] at held
    exact (CallPhase.holding.inj held).symm
  · intro one other seen seen' heldOne heldOther
    rw [others one seen heldOne, others other seen' heldOther]

/-- The writer was the only call between its steps, and it had read the current value. -/
theorem Sequential.write {call : ι} {seen : α} (sequential : Sequential next start s)
    (held : s.phase call = .holding seen) :
    Sequential next start { s.setPhase call .done with
      value := next seen
      obtained := s.obtained ++ [(call, next seen)] } := by
  have current : seen = s.value := sequential.seen call seen held
  have fresh : call ∉ s.obtained.map Prod.fst := by
    intro member
    rw [sequential.done call member] at held
    cases held
  have none : ∀ other seen', (s.setPhase call .done).phase other ≠ .holding seen' := by
    intro other seen' heldOther
    by_cases same : other = call
    · rw [same, phase_setPhase_self] at heldOther
      cases heldOther
    · rw [phase_setPhase_of_ne same] at heldOther
      exact same (sequential.single other call seen' seen heldOther held)
  refine ⟨?_, ?_, ?_, ?_, ?_, ?_⟩
  · simp only [List.length_append, List.length_singleton, Function.iterate_succ_apply']
    rw [current, sequential.value]
  · simp only [List.map_append, List.map_singleton, List.length_append, List.length_singleton,
      List.range_succ, sequential.obtained]
    rw [current, sequential.value, Function.iterate_succ_apply']
  · rw [List.map_append, List.map_singleton]
    exact List.nodup_append.mpr ⟨sequential.callers, List.nodup_singleton call, by
      intro other member one isCall
      rw [List.mem_singleton.mp isCall]
      intro same
      subst same
      exact fresh member⟩
  · intro other member
    rw [List.map_append, List.map_singleton] at member
    by_cases same : other = call
    · rw [same]
      exact phase_setPhase_self
    · have earlier := (List.mem_append.mp member).resolve_right
        fun last => same (List.mem_singleton.mp last)
      exact (phase_setPhase_of_ne same).trans (sequential.done other earlier)
  · intro other seen' heldOther
    exact (none other seen' heldOther).elim
  · intro one other seen' seen'' heldOne
    exact (none one seen' heldOne).elim

theorem Sequential.step (sequential : Sequential next start s) (exclusive : Exclusive s label)
    (taken : cellStep next s label = some t) : Sequential next start t := by
  rcases cellStep_cases taken with ⟨call, rfl, idle, rfl⟩ | ⟨call, seen, rfl, held, rfl⟩
  · exact sequential.read exclusive idle
  · exact sequential.write held

/-- Calls that never overlap obtain the successive iterates. -/
theorem exclusive_run {schedule : List (CellStep ι)} (sequential : Sequential next start s)
    (exclusive : Guarded (cellStep next) Exclusive s schedule)
    (run : exec (cellStep next) s schedule = some t) : Sequential next start t :=
  exec_invariant_of_guarded (Sequential next start) (fun _ _ _ => Sequential.step) sequential
    exclusive run

omit [DecidableEq ι] in
/-- Their values differ as long as the iterates do. -/
theorem Sequential.nodup [Fintype ι] (sequential : Sequential next start s)
    (distinct : ∀ j k, j < k → k ≤ Fintype.card ι → next^[j] start ≠ next^[k] start) :
    (s.obtained.map Prod.snd).Nodup := by
  have few : s.obtained.length ≤ Fintype.card ι := by
    have bound := sequential.callers.length_le_card
    rwa [List.length_map] at bound
  rw [sequential.obtained]
  refine List.Nodup.map_on ?_ List.nodup_range
  intro j inRange k inRange' same
  have jBound := List.mem_range.mp inRange
  have kBound := List.mem_range.mp inRange'
  rcases Nat.lt_trichotomy j k with less | equal | greater
  · exact (distinct (j + 1) (k + 1) (by omega) (by omega) same).elim
  · exact equal
  · exact (distinct (k + 1) (j + 1) (by omega) (by omega) same.symm).elim

end Exclusive

/-! ## Overlapping calls -/

section Overlap

variable {next : α → α} {start : α} {s t : SharedCell ι α} {label : CellStep ι} {call : ι}
  {seen : α}

/-- A call that has read `seen`, and holds it still or has written `next seen`. -/
def HasRead (next : α → α) (call : ι) (seen : α) (s : SharedCell ι α) : Prop :=
  s.phase call = .holding seen ∨ (call, next seen) ∈ s.obtained

theorem HasRead.step (hasRead : HasRead next call seen s)
    (taken : cellStep next s label = some t) : HasRead next call seen t := by
  rcases cellStep_cases taken with ⟨other, rfl, idle, rfl⟩ | ⟨other, seen', rfl, held, rfl⟩
  · rcases hasRead with holds | wrote
    · have differs : call ≠ other := by
        intro same
        subst same
        rw [idle] at holds
        cases holds
      exact Or.inl ((phase_setPhase_of_ne differs).trans holds)
    · exact Or.inr wrote
  · rcases hasRead with holds | wrote
    · by_cases same : call = other
      · cases same
        cases CallPhase.holding.inj (held.symm.trans holds)
        exact Or.inr (List.mem_append_right _ (List.mem_singleton_self _))
      · exact Or.inl ((phase_setPhase_of_ne same).trans holds)
    · exact Or.inr (List.mem_append_left _ wrote)

omit [DecidableEq ι] in
/-- Once every call that has read has also written, two calls that read the same value have obtained
the same value. -/
theorem not_nodup_of_hasRead {other : ι} (differs : call ≠ other)
    (complete : Complete t)
    (one : HasRead next call seen t) (two : HasRead next other seen t) :
    ¬ (t.obtained.map Prod.snd).Nodup := by
  intro nodup
  have finished : ∀ c, t.phase c ≠ .holding seen := fun c held =>
    nomatch (isHolding_of_holding held).symm.trans (complete c)
  have wrote := one.resolve_left (finished call)
  have wrote' := two.resolve_left (finished other)
  have same := List.inj_on_of_nodup_map nodup wrote wrote' rfl
  exact differs (congrArg Prod.fst same)

/-- Where the calls of a complete run obtained different values, they never overlapped. -/
theorem exclusive_of_nodup {schedule : List (CellStep ι)} (sequential : Sequential next start s)
    (run : exec (cellStep next) s schedule = some t)
    (complete : Complete t)
    (nodup : (t.obtained.map Prod.snd).Nodup) :
    Guarded (cellStep next) Exclusive s schedule := by
  induction schedule generalizing s with
  | nil => trivial
  | cons label schedule ih =>
      rcases exec_cons_eq_some.mp run with ⟨u, taken, rest⟩
      have exclusive : Exclusive s label := by
        rcases cellStep_cases taken with ⟨call, rfl, idle, after⟩ | ⟨_, _, rfl, _, _⟩
        · intro other
          cases phase : s.phase other with
          | holding seen =>
              have differs : call ≠ other := by
                intro same
                subst same
                rw [idle] at phase
                cases phase
              have current := sequential.seen other seen phase
              have reader : HasRead next call seen u := by
                rw [after, current]
                exact Or.inl phase_setPhase_self
              have holder : HasRead next other seen u := HasRead.step (Or.inl phase) taken
              have final : ∀ c, HasRead next c seen u → HasRead next c seen t := fun c hasRead =>
                exec_invariant (HasRead next c seen) (fun _ _ _ read step => read.step step)
                  hasRead rest
              exact (not_nodup_of_hasRead differs complete (final call reader)
                (final other holder) nodup).elim
          | _ => rfl
        · trivial
      refine ⟨exclusive, fun v taken' => ?_⟩
      cases Option.some.inj (taken.symm.trans taken')
      exact ih (sequential.step exclusive taken) rest

end Overlap

end Hypepool.Base
