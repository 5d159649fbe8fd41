import Hypepool.Base.Effect
import Mathlib.Data.List.Forall2

/-!
# Programs that save to a stream and programs that load from it

A saving program appends to a list what it writes, a loading program takes off the front of a list
what it reads.  The two belong together at a value when the one writes what the other reads back as
this value, whatever follows it on the stream.  This composes along the statements of the two
programs, so it is proved of a format field by field.

* `agree_bind`, `agree_mapM`: the rules for one statement after another, and for a loop.
* `yields_bind`, `yields_mapM`: what holds of the values a program loads.
* `Slot.after`, `Slot.andThen`: objects that differ in one place are saved differently there alone.
* `agree_unique`: what one program loads back was saved differently for different values.
-/

namespace Hypepool.Base

universe u

variable {ε σ α β ι κ : Type u}

/-- `save` appends `written` and ends with `a`, and `load` takes `written` off and ends with `a`. -/
structure Agree (save load : EStateM ε (List σ) α) (a : α) (written : List σ) : Prop where
  saves : ∀ out, save.run out = .ok a (out ++ written)
  loads : ∀ rest, load.run (written ++ rest) = .ok a rest

/-- The programs belong together at `a`, over no fewer than `least` items. -/
def Stores (least : Nat) (save load : EStateM ε (List σ) α) (a : α) : Prop :=
  ∃ written, least ≤ written.length ∧ Agree save load a written

section Agree

variable {save load save' : EStateM ε (List σ) α} {saveNext loadNext : α → EStateM ε (List σ) β}
  {a a' : α} {b : β} {written written' rest rest' : List σ} {least least' : Nat}

theorem agree_pure : Agree (pure a : EStateM ε (List σ) α) (pure a) a [] := by
  refine ⟨fun out => ?_, fun _ => rfl⟩
  rw [List.append_nil]
  rfl

theorem agree_bind (first : Agree save load a written)
    (next : Agree (saveNext a) (loadNext a) b written') :
    Agree (save >>= saveNext) (load >>= loadNext) b (written ++ written') := by
  refine ⟨fun out => ?_, fun rest => ?_⟩
  · rw [run_bind_of_ok (first.saves out), next.saves, List.append_assoc]
  · rw [List.append_assoc, run_bind_of_ok (first.loads _), next.loads]

/-- A loop over what is saved, and one over the places that it is loaded to. -/
theorem agree_mapM {items : List κ} {places : List ι} {save : κ → EStateM ε (List σ) α}
    {load : ι → EStateM ε (List σ) α} {value : κ → α} {written : κ → List σ}
    (each : List.Forall₂ (fun item place => Agree (save item) (load place) (value item)
      (written item)) items places) :
    Agree (items.mapM save) (places.mapM load) (items.map value) (items.flatMap written) := by
  induction each with
  | nil => exact agree_pure
  | @cons item place items places here _ ih =>
      rw [List.mapM_cons, List.mapM_cons, List.flatMap_cons]
      refine agree_bind here ?_
      rw [← List.append_nil (items.flatMap written)]
      exact agree_bind ih agree_pure

/-- What was saved for a program that loads it back tells the value, and where it ends. -/
theorem agree_unique (first : Agree save load a written) (second : Agree save' load a' written')
    (same : written ++ rest = written' ++ rest') : a = a' ∧ rest = rest' := by
  have loaded := first.loads rest
  rw [same, second.loads] at loaded
  injection loaded with value left
  exact ⟨value.symm, left.symm⟩

theorem stores_of_agree (agree : Agree save load a written) (enough : least ≤ written.length) :
    Stores least save load a := ⟨written, enough, agree⟩

theorem Stores.mono (stores : Stores least save load a) (fewer : least' ≤ least) :
    Stores least' save load a := by
  obtain ⟨written, enough, agree⟩ := stores
  exact ⟨written, Nat.le_trans fewer enough, agree⟩

theorem stores_pure : Stores 0 (pure a : EStateM ε (List σ) α) (pure a) a :=
  stores_of_agree agree_pure (Nat.zero_le _)

theorem stores_bind (first : Stores least save load a)
    (next : Stores least' (saveNext a) (loadNext a) b) :
    Stores (least + least') (save >>= saveNext) (load >>= loadNext) b := by
  obtain ⟨written, enough, agree⟩ := first
  obtain ⟨written', enough', agree'⟩ := next
  refine ⟨written ++ written', ?_, agree_bind agree agree'⟩
  rw [List.length_append]
  omega

theorem Stores.zero (stores : Stores least save load a) : Stores 0 save load a :=
  stores.mono (Nat.zero_le _)

/-- What the first statement writes is enough. -/
theorem Stores.andThen (first : Stores least save load a)
    (next : Stores 0 (saveNext a) (loadNext a) b) :
    Stores least (save >>= saveNext) (load >>= loadNext) b :=
  stores_bind first next

theorem stores_mapM {items : List κ} {places : List ι} {save : κ → EStateM ε (List σ) α}
    {load : ι → EStateM ε (List σ) α} {value : κ → α}
    (each : List.Forall₂ (fun item place => Stores least (save item) (load place) (value item))
      items places) :
    Stores (items.length * least) (items.mapM save) (places.mapM load) (items.map value) := by
  induction each with
  | nil => exact (stores_pure : Stores 0 _ _ _).mono (Nat.le_of_eq (Nat.zero_mul _))
  | @cons item place items places here _ ih =>
      have shape : (item :: items).length * least = least + (items.length * least + 0) := by
        rw [List.length_cons, Nat.succ_mul, Nat.add_comm, Nat.add_zero]
      rw [List.mapM_cons, List.mapM_cons, shape]
      refine stores_bind here ?_
      exact stores_bind ih stores_pure

end Agree

/-! ## Objects that differ in one place -/

/-- The objects that `value` makes out of lists of `size` items are saved alike, up to these items,
which stand at `offset`, and are all loaded back. -/
def Slot (offset size : Nat) (save : List σ → EStateM ε (List σ) α)
    (load : EStateM ε (List σ) α) (value : List σ → α) : Prop :=
  ∃ before after, before.length = offset ∧ ∀ items, items.length = size →
    Agree (save items) load (value items) (before ++ items ++ after)

section Slot

variable {offset size : Nat} {save : EStateM ε (List σ) α} {load : EStateM ε (List σ) α}
  {saves : List σ → EStateM ε (List σ) α} {savesNext : List σ → α → EStateM ε (List σ) β}
  {loadNext : α → EStateM ε (List σ) β} {value : List σ → α} {value' : List σ → β} {a : α}
  {written : List σ}

/-- What is written first is the same. -/
theorem Slot.after (first : Agree save load a written)
    (next : Slot offset size (fun items => savesNext items a) (loadNext a) value') :
    Slot (written.length + offset) size (fun items => save >>= savesNext items)
      (load >>= loadNext) value' := by
  obtain ⟨before, after, start, each⟩ := next
  refine ⟨written ++ before, after, ?_, fun items length => ?_⟩
  · rw [List.length_append, start]
  · rw [List.append_assoc, List.append_assoc]
    refine agree_bind first ?_
    rw [← List.append_assoc]
    exact each items length

/-- What is written last is the same. -/
theorem Slot.andThen (first : Slot offset size saves load value)
    (next : ∃ written, ∀ items, items.length = size →
      Agree (savesNext items (value items)) (loadNext (value items)) (value' items) written) :
    Slot offset size (fun items => saves items >>= savesNext items) (load >>= loadNext)
      value' := by
  obtain ⟨before, after, start, each⟩ := first
  obtain ⟨written, next⟩ := next
  refine ⟨before, after ++ written, start, fun items length => ?_⟩
  rw [← List.append_assoc]
  exact agree_bind (each items length) (next items length)

/-- The place itself, behind what depends on its size alone. -/
theorem slot_of_agree (before : List σ)
    (each : ∀ items, items.length = size →
      Agree (saves items) load (value items) (before ++ items)) :
    Slot before.length size saves load value := by
  refine ⟨before, [], rfl, fun items length => ?_⟩
  rw [List.append_nil]
  exact each items length

theorem Slot.stores {items : List σ} (slot : Slot offset size saves load value)
    (length : items.length = size) : Stores 0 (saves items) load (value items) := by
  obtain ⟨before, after, _, each⟩ := slot
  exact stores_of_agree (each items length) (Nat.zero_le _)

end Slot

/-! ## What a program loads -/

/-- Whatever `load` takes off the stream, it leaves the rest, and ends with a value with `P`. -/
def Yields (load : EStateM ε (List σ) α) (P : α → Prop) : Prop :=
  ∀ input a rest, load.run input = .ok a rest → rest <:+ input ∧ P a

section Yields

variable {load : EStateM ε (List σ) α} {next : α → EStateM ε (List σ) β} {P Q : α → Prop}
  {R : β → Prop} {a : α} {e : ε}

theorem yields_pure (holds : P a) : Yields (pure a : EStateM ε (List σ) α) P := by
  intro input b rest ended
  injection ended with value left
  exact ⟨left ▸ List.suffix_rfl, value ▸ holds⟩

theorem yields_throw : Yields (throw e : EStateM ε (List σ) α) P := by
  intro input b rest ended
  cases ended

theorem Yields.mono (yields : Yields load P) (weaker : ∀ a, P a → Q a) : Yields load Q := by
  intro input a rest ended
  obtain ⟨left, holds⟩ := yields input a rest ended
  exact ⟨left, weaker a holds⟩

theorem yields_and (first : Yields load P) (second : Yields load Q) :
    Yields load fun a => P a ∧ Q a := by
  intro input a rest ended
  obtain ⟨left, holds⟩ := first input a rest ended
  exact ⟨left, holds, (second input a rest ended).2⟩

theorem yields_bind (first : Yields load P) (then_ : ∀ a, P a → Yields (next a) R) :
    Yields (load >>= next) R := by
  intro input b rest ended
  obtain ⟨a, between, begun, ended⟩ := of_run_bind_ok ended
  obtain ⟨left, holds⟩ := first input a between begun
  obtain ⟨left', holds'⟩ := then_ a holds between b rest ended
  exact ⟨left'.trans left, holds'⟩

theorem yields_mapM {items : List ι} {load : ι → EStateM ε (List σ) α} {P : ι → α → Prop}
    (each : ∀ item ∈ items, Yields (load item) (P item)) :
    Yields (items.mapM load) (List.Forall₂ P items) := by
  induction items with
  | nil => exact yields_pure List.Forall₂.nil
  | cons item items ih =>
      have here := each item List.mem_cons_self
      have later := ih fun item member => each item (List.mem_cons_of_mem _ member)
      rw [List.mapM_cons]
      exact yields_bind here fun a first => yields_bind later fun as others =>
        yields_pure (List.Forall₂.cons first others)

/-- A loop takes as much off the stream as its turns do. -/
theorem length_of_mapM {places : List ι} {load : ι → EStateM ε (List σ) α} {least : Nat}
    (each : ∀ place input a rest, (load place).run input = .ok a rest →
      rest.length + least ≤ input.length) {input rest : List σ} {as : List α}
    (ended : (places.mapM load).run input = .ok as rest) :
    rest.length + places.length * least ≤ input.length := by
  induction places generalizing input as with
  | nil =>
      injection ended with _ left
      rw [left, List.length_nil, Nat.zero_mul]
      exact Nat.le_refl _
  | cons place places ih =>
      rw [List.mapM_cons] at ended
      obtain ⟨a, between, first, ended⟩ := of_run_bind_ok ended
      obtain ⟨others, behind, later, ended⟩ := of_run_bind_ok ended
      injection ended with _ left
      rw [left] at later
      have here := each place input a between first
      have there := ih later
      rw [List.length_cons, Nat.succ_mul]
      omega

end Yields

end Hypepool.Base
