import Mathlib.Data.List.Basic

/-!
# Runs of sequential components and of interleaved systems

A sequential component is a total function from a state and an input to an output and the next
state; `finalState` and `outputs` are its run over a list of inputs.  An interleaved system is a
partial function from a state and a label to the next state; `exec` is its run over a schedule,
and it is undefined as soon as a label is not enabled.

* `finalState_invariant`, `exec_invariant`: what one step preserves, a run preserves.
* `Along P`, `Guarded P`: every step of a run meets the condition `P` on the state before the
  step and the input.
* `along_iff_of_carried`: two step conditions that agree in every state an invariant describes
  hold along the same runs, also when the invariant is carried only by the condition itself.
* `overwrite_eq_iff_of_perm`: when the order of the writes to a register makes no difference.
-/

namespace Hypepool.Base

universe u v w

/-! ## Sequential components -/

section Sequential

variable {σ : Type u} {α : Type v} {β : Type w}

/-- The state after the inputs `as`, taken in order. -/
def finalState (f : σ → α → β × σ) : σ → List α → σ
  | s, [] => s
  | s, a :: as => finalState f (f s a).2 as

/-- The outputs given for the inputs `as`, one for each input. -/
def outputs (f : σ → α → β × σ) : σ → List α → List β
  | _, [] => []
  | s, a :: as => (f s a).1 :: outputs f (f s a).2 as

/-- Every input of the run finds a state that meets `P` with it. -/
def Along (f : σ → α → β × σ) (P : σ → α → Prop) : σ → List α → Prop
  | _, [] => True
  | s, a :: as => P s a ∧ Along f P (f s a).2 as

variable {f : σ → α → β × σ} {s : σ} {a : α} {as bs : List α}

@[simp] theorem finalState_nil : finalState f s [] = s := rfl

@[simp] theorem finalState_cons :
    finalState f s (a :: as) = finalState f (f s a).2 as := rfl

@[simp] theorem outputs_nil : outputs f s [] = [] := rfl

@[simp] theorem outputs_cons :
    outputs f s (a :: as) = (f s a).1 :: outputs f (f s a).2 as := rfl

@[simp] theorem along_nil {P : σ → α → Prop} : Along f P s [] := trivial

@[simp] theorem along_cons {P : σ → α → Prop} :
    Along f P s (a :: as) ↔ P s a ∧ Along f P (f s a).2 as := Iff.rfl

/-- What one step preserves, a run preserves. -/
theorem finalState_invariant (Inv : σ → Prop)
    (step : ∀ s a, Inv s → Inv (f s a).2) (start : Inv s) : Inv (finalState f s as) := by
  induction as generalizing s with
  | nil => exact start
  | cons a as ih => exact ih (step s a start)

/-- An invariant of the state and of what was emitted so far: what one step preserves, a run
preserves. -/
theorem emitted_invariant {γ : Type*} (Inv : List γ → σ → Prop) (emit : β → List γ)
    (step : ∀ done s a, Inv done s → Inv (done ++ emit (f s a).1) (f s a).2) {done : List γ}
    (start : Inv done s) : Inv (done ++ (outputs f s as).flatMap emit) (finalState f s as) := by
  induction as generalizing s done with
  | nil =>
      rw [outputs_nil, List.flatMap_nil, List.append_nil]
      exact start
  | cons a as ih =>
      rw [outputs_cons, List.flatMap_cons, ← List.append_assoc]
      exact ih (step done s a start)

/-- A step condition that an invariant guarantees holds along every run. -/
theorem along_of_invariant (Inv : σ → Prop) {P : σ → α → Prop}
    (step : ∀ s a, Inv s → Inv (f s a).2) (holds : ∀ s a, Inv s → P s a) (start : Inv s) :
    Along f P s as := by
  induction as generalizing s with
  | nil => exact along_nil
  | cons a as ih => exact ⟨holds s a start, ih (step s a start)⟩

/-- Two step conditions that agree in every state `Inv` describes hold along the same runs.
`Inv` has to survive a step only when the first condition held at it. -/
theorem along_iff_of_carried (Inv : σ → Prop) {P Q : σ → α → Prop}
    (agree : ∀ s a, Inv s → (P s a ↔ Q s a))
    (carry : ∀ s a, Inv s → P s a → Inv (f s a).2) (start : Inv s) :
    Along f P s as ↔ Along f Q s as := by
  induction as generalizing s with
  | nil => exact Iff.rfl
  | cons a as ih =>
      simp only [along_cons]
      constructor
      · intro both
        rcases both with ⟨here, rest⟩
        exact ⟨(agree s a start).mp here, (ih (carry s a start here)).mp rest⟩
      · intro both
        rcases both with ⟨here, rest⟩
        have holds := (agree s a start).mpr here
        exact ⟨holds, (ih (carry s a start holds)).mpr rest⟩

/-- A component that simulates another from related states gives corresponding outputs, and ends in
a related state. -/
theorem simulation {τ : Type*} {γ : Type*} {g : τ → α → γ × τ} {R : σ → τ → Prop} {out : β → γ}
    (step : ∀ s t a, R s t → out (f s a).1 = (g t a).1 ∧ R (f s a).2 (g t a).2)
    {t : τ} (start : R s t) :
    (outputs f s as).map out = outputs g t as ∧ R (finalState f s as) (finalState g t as) := by
  induction as generalizing s t with
  | nil => exact ⟨rfl, start⟩
  | cons a as ih =>
      rcases step s t a start with ⟨sameOutput, related⟩
      rcases ih related with ⟨sameOutputs, final⟩
      rw [outputs_cons, outputs_cons, List.map_cons, sameOutput, sameOutputs]
      exact ⟨rfl, final⟩

end Sequential

/-! ## Registers -/

section Register

variable {α : Type u} {β : Type v}

/-- A register that some of the inputs write to. -/
def overwrite (write : α → Option β) (r : β) (a : α) : Unit × β := ((), (write a).getD r)

/-- What the last of the inputs that write wrote, if there is one. -/
def lastWritten (write : α → Option β) (as : List α) : Option β := (as.filterMap write).getLast?

variable {write : α → Option β} {r : β} {as bs : List α}

/-- A register ends with what was written to it last. -/
theorem finalState_overwrite :
    finalState (overwrite write) r as = (lastWritten write as).getD r := by
  unfold lastWritten
  induction as generalizing r with
  | nil => rfl
  | cons a as ih =>
      rw [finalState_cons, ih, overwrite]
      cases written : write a with
      | none => rw [List.filterMap_cons_none written, Option.getD_none]
      | some value =>
          rw [List.filterMap_cons_some written, List.getLast?_cons, Option.getD_some,
            Option.getD_some]

/-- Two orders of the same writes leave the same value exactly when they have the same last one. -/
theorem overwrite_eq_iff_of_perm (same : (as.filterMap write).Perm (bs.filterMap write)) :
    finalState (overwrite write) r as = finalState (overwrite write) r bs ↔
      lastWritten write as = lastWritten write bs := by
  rw [finalState_overwrite, finalState_overwrite]
  constructor
  · intro equal
    cases last : lastWritten write as with
    | none =>
        have nothing : as.filterMap write = [] := List.getLast?_eq_none_iff.mp last
        rw [nothing] at same
        exact (List.getLast?_eq_none_iff.mpr same.nil_eq.symm).symm
    | some value =>
        cases last' : lastWritten write bs with
        | none =>
            have nothing : bs.filterMap write = [] := List.getLast?_eq_none_iff.mp last'
            rw [nothing] at same
            cases last.symm.trans (List.getLast?_eq_none_iff.mpr same.eq_nil)
        | some value' =>
            rw [last, last', Option.getD_some, Option.getD_some] at equal
            exact congrArg some equal
  · intro equal
    rw [equal]

end Register

/-! ## Interleaved systems -/

section Interleaved

variable {σ : Type u} {α : Type v}

/-- The state after the schedule `as`, if every label of it is enabled in its turn. -/
def exec (step : σ → α → Option σ) : σ → List α → Option σ
  | s, [] => some s
  | s, a :: as => (step s a).bind fun t => exec step t as

/-- The steps of `step` that meet `P` in the state before them. -/
def Guarded (step : σ → α → Option σ) (P : σ → α → Prop) : σ → List α → Prop
  | _, [] => True
  | s, a :: as => P s a ∧ ∀ t, step s a = some t → Guarded step P t as

variable {step : σ → α → Option σ} {s t u : σ} {a : α} {as bs : List α}

instance decidableGuarded {P : σ → α → Prop} [∀ s a, Decidable (P s a)] :
    (s : σ) → (as : List α) → Decidable (Guarded step P s as)
  | _, [] => isTrue trivial
  | s, a :: as =>
      match taken : step s a with
      | none => decidable_of_iff (P s a)
          ⟨fun here => ⟨here, fun _ some => nomatch taken.symm.trans some⟩, fun both => both.1⟩
      | some t =>
          have := decidableGuarded (P := P) t as
          decidable_of_iff (P s a ∧ Guarded step P t as)
            ⟨fun both => ⟨both.1, fun _ same => Option.some.inj (taken.symm.trans same) ▸ both.2⟩,
              fun both => ⟨both.1, both.2 t taken⟩⟩

@[simp] theorem exec_nil : exec step s [] = some s := rfl

theorem exec_cons : exec step s (a :: as) = (step s a).bind fun t => exec step t as := rfl

theorem exec_cons_eq_some :
    exec step s (a :: as) = some u ↔ ∃ t, step s a = some t ∧ exec step t as = some u := by
  rw [exec_cons, Option.bind_eq_some_iff]

theorem exec_append_eq_some :
    exec step s (as ++ bs) = some u ↔
      ∃ t, exec step s as = some t ∧ exec step t bs = some u := by
  induction as generalizing s with
  | nil => simp only [List.nil_append, exec_nil, Option.some.injEq, exists_eq_left']
  | cons a as ih =>
      simp only [List.cons_append, exec_cons_eq_some, ih]
      constructor
      · intro both
        rcases both with ⟨t, taken, v, front, back⟩
        exact ⟨v, ⟨t, taken, front⟩, back⟩
      · intro both
        rcases both with ⟨v, ⟨t, taken, front⟩, back⟩
        exact ⟨t, taken, v, front, back⟩

/-- Systems with the same steps for the labels of a schedule run it alike. -/
theorem exec_congr {step' : σ → α → Option σ} (same : ∀ s, ∀ a ∈ as, step s a = step' s a) :
    exec step s as = exec step' s as := by
  induction as generalizing s with
  | nil => rfl
  | cons a as ih =>
      have rest : (fun t => exec step t as) = fun t => exec step' t as :=
        funext fun t => ih fun s b member => same s b (List.mem_cons_of_mem a member)
      rw [exec_cons, exec_cons, same s a List.mem_cons_self, rest]

/-- What every enabled step preserves, a run preserves. -/
theorem exec_invariant (Inv : σ → Prop)
    (preserved : ∀ s a t, Inv s → step s a = some t → Inv t) (start : Inv s)
    (run : exec step s as = some t) : Inv t := by
  induction as generalizing s with
  | nil => exact Option.some.inj run ▸ start
  | cons a as ih =>
      rcases exec_cons_eq_some.mp run with ⟨v, taken, rest⟩
      exact ih (preserved s a v start taken) rest

/-- What every enabled step that meets `P` preserves, a run whose steps all meet `P` preserves. -/
theorem exec_invariant_of_guarded (Inv : σ → Prop) {P : σ → α → Prop}
    (preserved : ∀ s a t, Inv s → P s a → step s a = some t → Inv t) (start : Inv s)
    (guarded : Guarded step P s as) (run : exec step s as = some t) : Inv t := by
  induction as generalizing s with
  | nil => exact Option.some.inj run ▸ start
  | cons a as ih =>
      rcases exec_cons_eq_some.mp run with ⟨v, taken, rest⟩
      exact ih (preserved s a v start guarded.1 taken) (guarded.2 v taken) rest

theorem Guarded.mono {P Q : σ → α → Prop} (weaker : ∀ s a, P s a → Q s a)
    (guarded : Guarded step P s as) : Guarded step Q s as := by
  induction as generalizing s with
  | nil => trivial
  | cons a as ih => exact ⟨weaker s a guarded.1, fun t taken => ih (guarded.2 t taken)⟩

theorem guarded_of_forall {P : σ → α → Prop} (holds : ∀ s a, a ∈ as → P s a) :
    Guarded step P s as := by
  induction as generalizing s with
  | nil => trivial
  | cons a as ih =>
      exact ⟨holds s a List.mem_cons_self,
        fun t _ => ih fun t b member => holds t b (List.mem_cons_of_mem a member)⟩

/-- A guarded run meets the condition at every split of its schedule. -/
theorem guarded_iff_forall_split {P : σ → α → Prop} :
    Guarded step P s as ↔ ∀ before a after t, as = before ++ a :: after →
      exec step s before = some t → P t a := by
  constructor
  · intro guarded before
    induction before generalizing s as with
    | nil =>
        intro a after t same reached
        subst same
        cases Option.some.inj reached
        exact guarded.1
    | cons b before ih =>
        intro a after t same reached
        subst same
        rcases exec_cons_eq_some.mp reached with ⟨u, taken, rest⟩
        exact ih (guarded.2 u taken) a after t rfl rest
  · intro splits
    induction as generalizing s with
    | nil => trivial
    | cons a as ih =>
        refine ⟨splits [] a as s rfl rfl, fun t taken => ih ?_⟩
        intro before b after u same reached
        subst same
        exact splits (a :: before) b after u rfl (exec_cons_eq_some.mpr ⟨t, taken, reached⟩)

end Interleaved

end Hypepool.Base
