import Hypepool.Base.Run
import Mathlib.Data.Fintype.Defs
import Mathlib.Data.List.Nodup
import Mathlib.Data.List.Perm.Subperm
import Mathlib.Logic.Function.Basic

/-!
# Advancing a shared cell and reading it again

Any number of calls share one cell.  A call takes three steps, each atomic: it prepares the cell, it
advances it by `next`, and it reads it.  Other calls may come in between, so what a call reads need
not be what it wrote.

* `inOrder_run`: if nothing changes the cell while a call is about to read it, every call reads what
  it wrote.
* `Enrolled.step`: who began, wrote and read, whatever comes in between; so when nobody is about to
  read, as many have read as written (`Enrolled.length_obtained`).
-/

namespace Hypepool.Base

universe u v

variable {ι : Type u} {α : Type v}

/-- How far a call has come. -/
inductive Stage
  | idle
  | prepared
  | advanced
  | done
  deriving DecidableEq

/-- The cell and its calls: who began, what each wrote and what each read, in the order of the
steps. -/
structure AdvancingCell (ι : Type u) (α : Type v) where
  value : α
  stage : ι → Stage := fun _ => .idle
  begun : List ι := []
  written : List (ι × α) := []
  obtained : List (ι × α) := []

inductive AdvanceStep (ι : Type u)
  | prepare (call : ι)
  | advance (call : ι)
  | read (call : ι)
  deriving DecidableEq

variable [DecidableEq ι]

/-- One step of one call. -/
def advanceStep (prepare next : α → α) (s : AdvancingCell ι α) :
    AdvanceStep ι → Option (AdvancingCell ι α)
  | .prepare call =>
      if s.stage call = .idle then
        some { s with
          value := prepare s.value
          stage := Function.update s.stage call .prepared
          begun := s.begun ++ [call] }
      else none
  | .advance call =>
      if s.stage call = .prepared then
        some { s with
          value := next s.value
          stage := Function.update s.stage call .advanced
          written := s.written ++ [(call, next s.value)] }
      else none
  | .read call =>
      if s.stage call = .advanced then
        some { s with
          stage := Function.update s.stage call .done
          obtained := s.obtained ++ [(call, s.value)] }
      else none

/-- No call is about to read. -/
def NoneReading (s : AdvancingCell ι α) : Prop := ∀ call, s.stage call ≠ .advanced

instance [Fintype ι] (s : AdvancingCell ι α) : Decidable (NoneReading s) :=
  inferInstanceAs (Decidable (∀ call, s.stage call ≠ .advanced))

/-- The cell is not changed while a call is about to read it. -/
def Undisturbed (prepare : α → α) (s : AdvancingCell ι α) : AdvanceStep ι → Prop
  | .prepare _ => prepare s.value = s.value ∨ NoneReading s
  | .advance _ => NoneReading s
  | .read _ => True

variable {prepare next : α → α} {s t : AdvancingCell ι α} {label : AdvanceStep ι}

/-- The enabled steps and what they do. -/
theorem advanceStep_cases (taken : advanceStep prepare next s label = some t) :
    (∃ call, label = .prepare call ∧ s.stage call = .idle ∧
      t = { s with
        value := prepare s.value
        stage := Function.update s.stage call .prepared
        begun := s.begun ++ [call] }) ∨
    (∃ call, label = .advance call ∧ s.stage call = .prepared ∧
      t = { s with
        value := next s.value
        stage := Function.update s.stage call .advanced
        written := s.written ++ [(call, next s.value)] }) ∨
    (∃ call, label = .read call ∧ s.stage call = .advanced ∧
      t = { s with
        stage := Function.update s.stage call .done
        obtained := s.obtained ++ [(call, s.value)] }) := by
  cases label with
  | prepare call =>
      obtain ⟨here, after⟩ := Option.ite_none_right_eq_some.mp taken
      exact Or.inl ⟨call, rfl, here, (Option.some.inj after).symm⟩
  | advance call =>
      obtain ⟨here, after⟩ := Option.ite_none_right_eq_some.mp taken
      exact Or.inr (Or.inl ⟨call, rfl, here, (Option.some.inj after).symm⟩)
  | read call =>
      obtain ⟨here, after⟩ := Option.ite_none_right_eq_some.mp taken
      exact Or.inr (Or.inr ⟨call, rfl, here, (Option.some.inj after).symm⟩)

/-- A call that nobody interrupts. -/
theorem exec_of_alone {call : ι} (idle : s.stage call = .idle) :
    exec (advanceStep prepare next) s [.prepare call, .advance call, .read call] =
      some { value := next (prepare s.value)
             stage := Function.update s.stage call .done
             begun := s.begun ++ [call]
             written := s.written ++ [(call, next (prepare s.value))]
             obtained := s.obtained ++ [(call, next (prepare s.value))] } := by
  simp only [exec_cons, advanceStep, idle, if_true, Option.bind_some, Function.update_self,
    Function.update_idem, exec_nil]

/-! ## Undisturbed runs -/

/-- Everybody read what he wrote, but the last to write, who may be about to read. -/
def InOrder (s : AdvancingCell ι α) : Prop :=
  NoneReading s ∧ s.written = s.obtained ∨
    ∃ call, (∀ other, s.stage other = .advanced ↔ other = call) ∧
      s.written = s.obtained ++ [(call, s.value)]

omit [DecidableEq ι] in
theorem InOrder.initial (value : α) : InOrder ({ value := value } : AdvancingCell ι α) :=
  Or.inl ⟨fun _ => nofun, rfl⟩

/-- A step to another stage than `advanced`, by a call that was not about to read. -/
theorem advanced_update_iff {call : ι} {stage : Stage} (before : s.stage call ≠ .advanced)
    (after : stage ≠ .advanced) (other : ι) :
    Function.update s.stage call stage other = .advanced ↔ s.stage other = .advanced := by
  by_cases same : other = call
  · subst same
    rw [Function.update_self]
    exact ⟨fun absurd => (after absurd).elim, fun absurd => (before absurd).elim⟩
  · rw [Function.update_of_ne same]

theorem InOrder.step (inOrder : InOrder s) (undisturbed : Undisturbed prepare s label)
    (taken : advanceStep prepare next s label = some t) : InOrder t := by
  rcases advanceStep_cases taken with ⟨call, rfl, idle, rfl⟩ | ⟨call, rfl, prepared, rfl⟩ |
    ⟨call, rfl, advanced, rfl⟩
  · have stages : ∀ other, Function.update s.stage call .prepared other = .advanced ↔
        s.stage other = .advanced := advanced_update_iff (by rw [idle]; decide) (by decide)
    rcases inOrder with ⟨none, same⟩ | ⟨reader, only, last⟩
    · exact Or.inl ⟨fun other => (stages other).not.mpr (none other), same⟩
    · have kept : prepare s.value = s.value :=
        undisturbed.resolve_right fun none => none reader ((only reader).mpr rfl)
      refine Or.inr ⟨reader, fun other => (stages other).trans (only other), ?_⟩
      rw [kept]
      exact last
  · rcases inOrder with ⟨none, same⟩ | ⟨reader, only, last⟩
    · refine Or.inr ⟨call, fun other => ?_, congrArg (· ++ _) same⟩
      simp only [Function.update_apply]
      split
      case isTrue isCall => exact ⟨fun _ => isCall, fun _ => rfl⟩
      case isFalse differs =>
        exact ⟨fun advanced => (none other advanced).elim, fun isCall => (differs isCall).elim⟩
    · exact (undisturbed reader ((only reader).mpr rfl)).elim
  · rcases inOrder with ⟨none, -⟩ | ⟨reader, only, last⟩
    · exact (none call advanced).elim
    · obtain rfl := (only call).mp advanced
      refine Or.inl ⟨fun other => ?_, last⟩
      simp only [Function.update_apply]
      split
      case isTrue => decide
      case isFalse differs => exact fun advanced => differs ((only other).mp advanced)

omit [DecidableEq ι] in
/-- Nobody obtains what he did not write, and everybody obtains it in the order of the writes. -/
theorem InOrder.obtained_of_written (inOrder : InOrder s) : s.obtained <+: s.written := by
  rcases inOrder with ⟨-, same⟩ | ⟨call, -, last⟩
  · exact same ▸ List.prefix_refl s.obtained
  · exact last ▸ List.prefix_append s.obtained _

theorem inOrder_run {schedule : List (AdvanceStep ι)} (inOrder : InOrder s)
    (undisturbed : Guarded (advanceStep prepare next) (Undisturbed prepare) s schedule)
    (run : exec (advanceStep prepare next) s schedule = some t) : InOrder t :=
  exec_invariant_of_guarded InOrder (fun _ _ _ => InOrder.step) inOrder undisturbed run

/-! ## Who began, who wrote and who read -/

/-- The list names the calls at the stages in `Q`, each once. -/
structure Lists (stage : ι → Stage) (Q : Stage → Prop) (calls : List ι) : Prop where
  nodup : calls.Nodup
  mem_iff : ∀ call, call ∈ calls ↔ Q (stage call)

section Lists

variable {stage : ι → Stage} {Q R : Stage → Prop} {calls others : List ι} {call : ι} {after : Stage}

theorem Lists.keep (lists : Lists stage Q calls) (same : Q after ↔ Q (stage call)) :
    Lists (Function.update stage call after) Q calls := by
  refine ⟨lists.nodup, fun other => ?_⟩
  rw [lists.mem_iff, Function.update_apply]
  split
  case isTrue isCall => rw [isCall, same]
  case isFalse => exact Iff.rfl

theorem Lists.append (lists : Lists stage Q calls) (new : ¬ Q (stage call)) (here : Q after) :
    Lists (Function.update stage call after) Q (calls ++ [call]) := by
  have unlisted : call ∉ calls := fun member => new ((lists.mem_iff call).mp member)
  refine ⟨List.nodup_append_comm.mp (List.nodup_cons.mpr ⟨unlisted, lists.nodup⟩), fun other => ?_⟩
  rw [List.mem_append, List.mem_singleton, lists.mem_iff, Function.update_apply]
  split
  case isTrue isCall => exact ⟨fun _ => here, fun _ => Or.inr isCall⟩
  case isFalse differs => exact ⟨fun either => either.resolve_right differs, Or.inl⟩

omit [DecidableEq ι] in
theorem Lists.length_le (lists : Lists stage Q calls) (all : Lists stage R others)
    (sub : ∀ call, Q (stage call) → R (stage call)) : calls.length ≤ others.length := by
  have subset : calls ⊆ others := fun call member =>
    (all.mem_iff call).mpr (sub call ((lists.mem_iff call).mp member))
  exact (lists.nodup.subperm subset).length_le

omit [DecidableEq ι] in
/-- A call that only the second list names. -/
theorem Lists.length_lt (lists : Lists stage Q calls) (all : Lists stage R others)
    (sub : ∀ call, Q (stage call) → R (stage call)) (new : ¬ Q (stage call))
    (here : R (stage call)) : calls.length < others.length := by
  have unlisted : call ∉ calls := fun member => new ((lists.mem_iff call).mp member)
  have nodup : (call :: calls).Nodup := List.nodup_cons.mpr ⟨unlisted, lists.nodup⟩
  have subset : call :: calls ⊆ others := by
    intro other member
    rcases List.mem_cons.mp member with rfl | listed
    · exact (all.mem_iff other).mpr here
    · exact (all.mem_iff other).mpr (sub other ((lists.mem_iff other).mp listed))
  exact (nodup.subperm subset).length_le

end Lists

/-- Written, and perhaps read. -/
def Stage.HasWritten (stage : Stage) : Prop := stage = .advanced ∨ stage = .done

/-- The logs name the calls that have come so far. -/
structure Enrolled (s : AdvancingCell ι α) : Prop where
  begun : Lists s.stage (· ≠ .idle) s.begun
  written : Lists s.stage Stage.HasWritten (s.written.map Prod.fst)
  obtained : Lists s.stage (· = .done) (s.obtained.map Prod.fst)

omit [DecidableEq ι] in
theorem Enrolled.initial (value : α) : Enrolled ({ value := value } : AdvancingCell ι α) :=
  ⟨⟨List.nodup_nil, fun _ => ⟨nofun, fun some => (some rfl).elim⟩⟩,
    ⟨List.nodup_nil, fun _ => ⟨nofun, fun some => nomatch some⟩⟩,
    ⟨List.nodup_nil, fun _ => ⟨nofun, nofun⟩⟩⟩

theorem Enrolled.step (enrolled : Enrolled s) (taken : advanceStep prepare next s label = some t) :
    Enrolled t := by
  rcases advanceStep_cases taken with ⟨call, rfl, idle, rfl⟩ | ⟨call, rfl, prepared, rfl⟩ |
    ⟨call, rfl, advanced, rfl⟩
  · refine ⟨enrolled.begun.append ?_ ?_, enrolled.written.keep ?_, enrolled.obtained.keep ?_⟩
    · exact fun some => some idle
    · decide
    · simp [idle, Stage.HasWritten]
    · simp [idle]
  · have written : Lists (Function.update s.stage call .advanced) Stage.HasWritten
        (s.written.map Prod.fst ++ [call]) :=
      enrolled.written.append (by simp [prepared, Stage.HasWritten]) (Or.inl rfl)
    refine ⟨enrolled.begun.keep ?_, ?_, enrolled.obtained.keep ?_⟩
    · simp [prepared]
    · rw [List.map_append]
      exact written
    · simp [prepared]
  · have obtained : Lists (Function.update s.stage call .done) (· = .done)
        (s.obtained.map Prod.fst ++ [call]) :=
      enrolled.obtained.append (by simp [advanced]) rfl
    refine ⟨enrolled.begun.keep ?_, enrolled.written.keep ?_, ?_⟩
    · simp [advanced]
    · simp [advanced, Stage.HasWritten]
    · rw [List.map_append]
      exact obtained

section Enrolled

variable {call : ι}

omit [DecidableEq ι] in
theorem Enrolled.written_le_begun (enrolled : Enrolled s) : s.written.length ≤ s.begun.length := by
  have le := enrolled.written.length_le enrolled.begun fun call wrote idle => by
    rw [idle] at wrote
    exact nomatch wrote
  rwa [List.length_map] at le

omit [DecidableEq ι] in
theorem Enrolled.written_lt_begun (enrolled : Enrolled s) (prepared : s.stage call = .prepared) :
    s.written.length < s.begun.length := by
  have new : ¬ Stage.HasWritten (s.stage call) := by simp [prepared, Stage.HasWritten]
  have less := enrolled.written.length_lt enrolled.begun (fun call wrote idle => by
    rw [idle] at wrote
    exact nomatch wrote) new (by simp [prepared])
  rwa [List.length_map] at less

omit [DecidableEq ι] in
theorem Enrolled.obtained_lt_written (enrolled : Enrolled s) (advanced : s.stage call = .advanced) :
    s.obtained.length < s.written.length := by
  have less := enrolled.obtained.length_lt enrolled.written (fun _ => Or.inr)
    (by rw [advanced]; decide : ¬ s.stage call = .done) (Or.inl advanced)
  rwa [List.length_map, List.length_map] at less

omit [DecidableEq ι] in
/-- When nobody is about to read, as many have read as written. -/
theorem Enrolled.length_obtained (enrolled : Enrolled s) (none : NoneReading s) :
    s.obtained.length = s.written.length := by
  have le := enrolled.obtained.length_le enrolled.written fun _ => Or.inr
  have ge := enrolled.written.length_le enrolled.obtained fun call wrote =>
    wrote.resolve_left (none call)
  rw [List.length_map, List.length_map] at le ge
  exact Nat.le_antisymm le ge

end Enrolled

end Hypepool.Base
