import Mathlib.Data.List.Basic

/-!
# Running programs that keep state and may throw

`EStateM ε σ` is the setting of imperative code with exceptions: a program run on a state ends
normally with a value, or with an exception, and in both cases leaves a state behind.  The rules
here advance `EStateM.run` over one construct once the outcome of the construct inside it is known.
-/

namespace Hypepool.Base

universe u

variable {ε σ α β : Type u} {x : EStateM ε σ α} {f : α → EStateM ε σ β} {s t : σ} {a : α} {e : ε}

theorem run_bind_of_ok (first : x.run s = .ok a t) : (x >>= f).run s = (f a).run t := by
  rw [EStateM.run_bind, first]

theorem run_bind_of_error (first : x.run s = .error e t) : (x >>= f).run s = .error e t := by
  rw [EStateM.run_bind, first]

/-- A program that ended normally ran its first part to the end. -/
theorem of_run_bind_ok {b : β} {u : σ} (ended : (x >>= f).run s = .ok b u) :
    ∃ a t, x.run s = .ok a t ∧ (f a).run t = .ok b u := by
  cases first : x.run s with
  | ok a t =>
      rw [run_bind_of_ok first] at ended
      exact ⟨a, t, rfl, ended⟩
  | error e t =>
      rw [run_bind_of_error first] at ended
      cases ended

@[simp] theorem ok_bind (a : α) (f : α → Except ε β) : (Except.ok a >>= f) = f a := rfl

@[simp] theorem error_bind (e : ε) (f : α → Except ε β) :
    ((Except.error e : Except ε α) >>= f) = .error e := rfl

/-- A pure computation that may throw, as a program that touches no state. -/
def liftExcept (x : Except ε α) : EStateM ε σ α := fun s =>
  match x with
  | .ok a => .ok a s
  | .error e => .error e s

@[simp] theorem run_liftExcept_ok : (liftExcept (.ok a) : EStateM ε σ α).run s = .ok a s := rfl

@[simp] theorem run_liftExcept_error :
    (liftExcept (.error e) : EStateM ε σ α).run s = .error e s := rfl

/-- `body`, followed by `last` whether `body` ended normally or with an exception. -/
def andFinally (body : EStateM ε σ α) (last : EStateM ε σ PUnit) : EStateM ε σ α := fun s =>
  match body.run s with
  | .ok a t =>
      match last.run t with
      | .ok _ u => .ok a u
      | .error e u => .error e u
  | .error e t =>
      match last.run t with
      | .ok _ u => .error e u
      | .error e' u => .error e' u

theorem run_andFinally_of_ok {body : EStateM ε σ α} {last : EStateM ε σ PUnit} {u : σ}
    (ended : body.run s = .ok a t) (after : last.run t = .ok .unit u) :
    (andFinally body last).run s = .ok a u := by
  simp only [EStateM.run] at ended after
  simp only [EStateM.run, andFinally, ended, after]

theorem run_andFinally_of_error {body : EStateM ε σ α} {last : EStateM ε σ PUnit} {u : σ}
    (ended : body.run s = .error e t) (after : last.run t = .ok .unit u) :
    (andFinally body last).run s = .error e u := by
  simp only [EStateM.run] at ended after
  simp only [EStateM.run, andFinally, ended, after]

/-- The state a program leaves behind, however it ended. -/
def stateAfter (x : EStateM ε σ α) (s : σ) : σ :=
  match x.run s with
  | .ok _ t => t
  | .error _ t => t

theorem stateAfter_of_ok (ended : x.run s = .ok a t) : stateAfter x s = t := by
  rw [stateAfter, ended]

theorem stateAfter_of_error (ended : x.run s = .error e t) : stateAfter x s = t := by
  rw [stateAfter, ended]

theorem stateAfter_congr {y : EStateM ε σ α} (same : x.run s = y.run t) :
    stateAfter x s = stateAfter y t := by
  rw [stateAfter, stateAfter, same]

theorem stateAfter_bind_of_ok (first : x.run s = .ok a t) :
    stateAfter (x >>= f) s = stateAfter (f a) t := by
  rw [stateAfter, stateAfter, run_bind_of_ok first]

theorem stateAfter_bind_of_error (first : x.run s = .error e t) : stateAfter (x >>= f) s = t :=
  stateAfter_of_error (run_bind_of_error first)

theorem stateAfter_andFinally {body : EStateM ε σ α} {last : EStateM ε σ PUnit} {u : σ}
    (after : last.run (stateAfter body s) = .ok .unit u) :
    stateAfter (andFinally body last) s = u := by
  cases ended : body.run s with
  | ok a t =>
      rw [stateAfter_of_ok ended] at after
      exact stateAfter_of_ok (run_andFinally_of_ok ended after)
  | error e t =>
      rw [stateAfter_of_error ended] at after
      exact stateAfter_of_error (run_andFinally_of_error ended after)

/-! ## What a program maintains -/

/-- However it ends, `x` leads from states with `Inv` to states with `Inv`. -/
def Maintains (Inv : σ → Prop) (x : EStateM ε σ α) : Prop := ∀ s, Inv s → Inv (stateAfter x s)

section Maintains

variable {Inv : σ → Prop}

theorem maintains_bind (first : Maintains Inv x) (rest : ∀ a, Maintains Inv (f a)) :
    Maintains Inv (x >>= f) := by
  intro s before
  have between := first s before
  cases ended : x.run s with
  | ok a t =>
      rw [stateAfter_of_ok ended] at between
      rw [stateAfter_bind_of_ok ended]
      exact rest a t between
  | error e t =>
      rw [stateAfter_of_error ended] at between
      rw [stateAfter_bind_of_error ended]
      exact between

theorem maintains_pure : Maintains Inv (pure a : EStateM ε σ α) := fun _ before => before

theorem maintains_throw : Maintains Inv (throw e : EStateM ε σ α) := fun _ before => before

theorem maintains_get : Maintains Inv (get : EStateM ε σ σ) := fun _ before => before

theorem maintains_liftExcept {y : Except ε α} :
    Maintains Inv (liftExcept y : EStateM ε σ α) := by
  intro s before
  cases y with
  | ok a => exact before
  | error e => exact before

theorem maintains_modify {g : σ → σ} (kept : ∀ s, Inv s → Inv (g s)) :
    Maintains Inv (modify g : EStateM ε σ PUnit) := fun s before => kept s before

end Maintains

end Hypepool.Base
