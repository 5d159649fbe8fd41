import Mathlib.Data.List.Basic
import Hypepool.Base.Run

/-!
# Separator framing of a stream

A stream over any alphabet is cut at a separator: `terminated` lists the records a separator
ends, `remainder` is what follows the last separator.  Both are read off `List.splitOn`, and
`framing_unique` says that no other cut fits.

`feed` is the component that receives a stream in chunks and keeps only the remainder.  It emits
the non-empty records a chunk completes; `exceeds` tells which lengths are refused, once for a whole
chunk and once for the remainder a chunk leaves.  `feed_outputs` and `feed_finalState` say that the
chunking of an accepted stream cannot be seen, `quiet_outputs_iff` when nothing is reported.
-/

namespace Hypepool.Base

universe u

/-- What the receiver of a chunked stream does with a chunk. -/
inductive Framed (α : Type u)
  | record (record : List α)
  | refused
  | overrun
  deriving DecidableEq

/-- The records among them. -/
def records {α : Type u} (framed : List (Framed α)) : List (List α) :=
  framed.filterMap fun
    | .record record => some record
    | _ => none

theorem records_map_record {α : Type u} (lines : List (List α)) :
    records (lines.map .record) = lines := by
  rw [records, List.filterMap_map]
  exact List.filterMap_some

theorem records_append {α : Type u} (front back : List (Framed α)) :
    records (front ++ back) = records front ++ records back := List.filterMap_append

/-- Nothing but records is reported. -/
def Quiet {α : Type u} (framed : List (Framed α)) : Prop := .refused ∉ framed ∧ .overrun ∉ framed

theorem quiet_append {α : Type u} {front back : List (Framed α)} :
    Quiet (front ++ back) ↔ Quiet front ∧ Quiet back := by
  simp only [Quiet, List.mem_append, not_or]
  exact and_and_and_comm

variable {α : Type u} [BEq α] [LawfulBEq α] {sep : α} {xs ys : List α}

/-- The records of `xs` that a separator ends, in order and without it. -/
def terminated (sep : α) (xs : List α) : List (List α) := (xs.splitOn sep).dropLast

/-- What follows the last separator of `xs`. -/
def remainder (sep : α) (xs : List α) : List α :=
  (xs.splitOn sep).getLast (List.splitOn_ne_nil sep xs)

theorem terminated_of_not_mem (free : sep ∉ xs) : terminated sep xs = [] := by
  rw [terminated, List.splitOn_eq_singleton free, List.dropLast_singleton]

theorem remainder_of_not_mem (free : sep ∉ xs) : remainder sep xs = xs := by
  simp only [remainder, List.splitOn_eq_singleton free, List.getLast_singleton]

@[simp] theorem terminated_nil : terminated sep ([] : List α) = [] :=
  terminated_of_not_mem List.not_mem_nil

@[simp] theorem remainder_nil : remainder sep ([] : List α) = [] :=
  remainder_of_not_mem List.not_mem_nil

theorem terminated_append_cons (free : sep ∉ xs) :
    terminated sep (xs ++ sep :: ys) = xs :: terminated sep ys := by
  rw [terminated, List.splitOn_append_cons_self_of_not_mem free,
    List.dropLast_cons_of_ne_nil (List.splitOn_ne_nil sep ys), terminated]

theorem remainder_append_cons : remainder sep (xs ++ sep :: ys) = remainder sep ys := by
  simp only [remainder, List.splitOn_append_cons_self]
  exact List.getLast_append_of_ne_nil _ _

/-- A stream either holds no separator or has a first one. -/
theorem not_mem_or_first_separator (sep : α) (xs : List α) :
    sep ∉ xs ∨ ∃ front back, xs = front ++ sep :: back ∧ sep ∉ front := by
  by_cases member : sep ∈ xs
  · exact Or.inr (List.eq_append_cons_of_mem member)
  · exact Or.inl member

theorem not_mem_remainder (sep : α) (xs : List α) : sep ∉ remainder sep xs := by
  induction len : xs.length using Nat.strongRecOn generalizing xs with
  | ind n ih =>
      rcases not_mem_or_first_separator sep xs with free | ⟨front, back, rfl, _⟩
      · rwa [remainder_of_not_mem free]
      · rw [remainder_append_cons]
        exact ih back.length (by rw [← len, List.length_append, List.length_cons]; omega) back rfl

/-- The terminated records of a longer stream: first those of the front, then those the front's
remainder begins. -/
theorem terminated_append (sep : α) (xs ys : List α) :
    terminated sep (xs ++ ys) =
      terminated sep xs ++ terminated sep (remainder sep xs ++ ys) := by
  induction len : xs.length using Nat.strongRecOn generalizing xs with
  | ind n ih =>
      rcases not_mem_or_first_separator sep xs with free | ⟨front, back, rfl, free⟩
      · rw [terminated_of_not_mem free, remainder_of_not_mem free, List.nil_append]
      · have shorter : back.length < n := by
          rw [← len, List.length_append, List.length_cons]; omega
        rw [List.append_assoc, List.cons_append, terminated_append_cons free,
          terminated_append_cons free, remainder_append_cons, List.cons_append,
          ih back.length shorter back rfl]

theorem remainder_append (sep : α) (xs ys : List α) :
    remainder sep (xs ++ ys) = remainder sep (remainder sep xs ++ ys) := by
  induction len : xs.length using Nat.strongRecOn generalizing xs with
  | ind n ih =>
      rcases not_mem_or_first_separator sep xs with free | ⟨front, back, rfl, _⟩
      · rw [remainder_of_not_mem free]
      · rw [List.append_assoc, List.cons_append, remainder_append_cons, remainder_append_cons]
        exact ih back.length
          (by rw [← len, List.length_append, List.length_cons]; omega) back rfl

/-- Separator-free records and a separator-free rest are the only framing of their stream. -/
theorem framing_unique {records : List (List α)} {rest : List α}
    (freeRecords : ∀ record ∈ records, sep ∉ record) (freeRest : sep ∉ rest) :
    terminated sep (records.flatMap (· ++ [sep]) ++ rest) = records ∧
      remainder sep (records.flatMap (· ++ [sep]) ++ rest) = rest := by
  induction records with
  | nil => exact ⟨terminated_of_not_mem freeRest, remainder_of_not_mem freeRest⟩
  | cons record records ih =>
      obtain ⟨terminatedTail, remainderTail⟩ := ih fun r member =>
        freeRecords r (List.mem_cons_of_mem record member)
      have shape : (record :: records).flatMap (· ++ [sep]) ++ rest =
          record ++ sep :: (records.flatMap (· ++ [sep]) ++ rest) := by
        simp only [List.flatMap_cons, List.append_assoc, List.cons_append, List.nil_append]
      rw [shape, terminated_append_cons (freeRecords record List.mem_cons_self),
        remainder_append_cons, terminatedTail, remainderTail]
      exact ⟨rfl, rfl⟩

/-- A record is shorter than its stream, which holds a separator as well. -/
theorem length_lt_of_mem_terminated {record : List α} (member : record ∈ terminated sep xs) :
    record.length < xs.length := by
  induction len : xs.length using Nat.strongRecOn generalizing xs with
  | ind n ih =>
      rcases not_mem_or_first_separator sep xs with free | ⟨front, back, rfl, free⟩
      · rw [terminated_of_not_mem free] at member
        cases member
      · rw [List.length_append, List.length_cons] at len
        rw [terminated_append_cons free] at member
        rcases List.mem_cons.mp member with rfl | later
        · omega
        · have short := ih back.length (by omega) later rfl
          omega

/-! ## Chunked streams -/

/-- One chunk of the stream, received with `pending` still unterminated. -/
def feed (exceeds : Nat → Bool) (sep : α) (pending chunk : List α) :
    List (Framed α) × List α :=
  if chunk.isEmpty then ([], pending)
  else if exceeds chunk.length then ([.refused], pending)
  else
    let rest := remainder sep (pending ++ chunk)
    (((terminated sep (pending ++ chunk)).filter (!·.isEmpty)).map .record ++
      (if !rest.isEmpty && exceeds rest.length then [.overrun] else []), rest)

omit [LawfulBEq α] in
theorem feed_refused {exceeds : Nat → Bool} {pending chunk : List α} (more : chunk ≠ [])
    (wide : exceeds chunk.length = true) :
    feed exceeds sep pending chunk = ([.refused], pending) := by
  rw [feed, if_neg (by rw [List.isEmpty_iff]; exact more), if_pos wide]

omit [LawfulBEq α] in
theorem feed_accepted {exceeds : Nat → Bool} {pending chunk : List α} (more : chunk ≠ [])
    (fits : exceeds chunk.length = false) :
    feed exceeds sep pending chunk =
      (((terminated sep (pending ++ chunk)).filter (!·.isEmpty)).map .record ++
        (if !(remainder sep (pending ++ chunk)).isEmpty &&
            exceeds (remainder sep (pending ++ chunk)).length then [.overrun] else []),
        remainder sep (pending ++ chunk)) := by
  rw [feed, if_neg (by rw [List.isEmpty_iff]; exact more), if_neg (by rw [fits]; decide)]

/-- An accepted chunk completes the records of `pending ++ chunk` and leaves its remainder, also
when the chunk is empty. -/
theorem feed_of_accepted {exceeds : Nat → Bool} {pending chunk : List α} (free : sep ∉ pending)
    (fits : exceeds chunk.length = false) :
    records (feed exceeds sep pending chunk).1 =
        (terminated sep (pending ++ chunk)).filter (!·.isEmpty) ∧
      (feed exceeds sep pending chunk).2 = remainder sep (pending ++ chunk) := by
  by_cases nothing : chunk = []
  · rw [nothing, List.append_nil, terminated_of_not_mem free, remainder_of_not_mem free]
    exact ⟨rfl, rfl⟩
  · have noRecord : ∀ condition : Bool,
        records (if condition = true then [Framed.overrun (α := α)] else []) = [] := by
      intro condition
      cases condition <;> rfl
    rw [feed_accepted nothing fits, records_append, records_map_record, noRecord, List.append_nil]
    exact ⟨rfl, rfl⟩

theorem not_mem_feed {exceeds : Nat → Bool} {pending chunk : List α} (free : sep ∉ pending) :
    sep ∉ (feed exceeds sep pending chunk).2 := by
  unfold feed
  split
  · exact free
  split
  · exact free
  · exact not_mem_remainder sep _

/-- While chunks are accepted, the records delivered are those of the whole stream. -/
theorem feed_outputs {exceeds : Nat → Bool} {pending : List α} {chunks : List (List α)}
    (free : sep ∉ pending) (accepted : ∀ chunk ∈ chunks, exceeds chunk.length = false) :
    (outputs (feed exceeds sep) pending chunks).flatMap records =
      (terminated sep (pending ++ chunks.flatten)).filter (!·.isEmpty) := by
  induction chunks generalizing pending with
  | nil =>
      simp only [outputs_nil, List.flatMap_nil, List.flatten_nil, List.append_nil,
        terminated_of_not_mem free, List.filter_nil]
  | cons chunk chunks ih =>
      obtain ⟨emitted, kept⟩ := feed_of_accepted free (accepted chunk List.mem_cons_self)
      have later : ∀ c ∈ chunks, exceeds c.length = false := fun c member =>
        accepted c (List.mem_cons_of_mem chunk member)
      rw [outputs_cons, List.flatMap_cons, ih (not_mem_feed free) later, emitted, kept,
        List.flatten_cons, ← List.append_assoc, terminated_append sep (pending ++ chunk),
        List.filter_append]

theorem feed_finalState {exceeds : Nat → Bool} {pending : List α} {chunks : List (List α)}
    (free : sep ∉ pending) (accepted : ∀ chunk ∈ chunks, exceeds chunk.length = false) :
    finalState (feed exceeds sep) pending chunks = remainder sep (pending ++ chunks.flatten) := by
  induction chunks generalizing pending with
  | nil =>
      rw [finalState_nil, List.flatten_nil, List.append_nil, remainder_of_not_mem free]
  | cons chunk chunks ih =>
      have later : ∀ c ∈ chunks, exceeds c.length = false := fun c member =>
        accepted c (List.mem_cons_of_mem chunk member)
      rw [finalState_cons, ih (not_mem_feed free) later,
        (feed_of_accepted free (accepted chunk List.mem_cons_self)).2, List.flatten_cons,
        ← List.append_assoc, remainder_append sep (pending ++ chunk)]

/-- A chunk passes quietly when neither it nor what stays pending after it is over the limit. -/
theorem quiet_feed_iff {exceeds : Nat → Bool} {pending chunk : List α} (none : exceeds 0 = false)
    (free : sep ∉ pending) (start : exceeds pending.length = false) :
    Quiet (feed exceeds sep pending chunk).1 ↔
      exceeds chunk.length = false ∧ exceeds (remainder sep (pending ++ chunk)).length = false := by
  by_cases nothing : chunk = []
  · rw [nothing, List.append_nil, remainder_of_not_mem free]
    exact ⟨fun _ => ⟨none, start⟩, fun _ => ⟨List.not_mem_nil, List.not_mem_nil⟩⟩
  cases wide : exceeds chunk.length with
  | true =>
      rw [feed_refused nothing wide]
      simp [Quiet]
  | false =>
      rw [feed_accepted nothing wide]
      cases wider : exceeds (remainder sep (pending ++ chunk)).length with
      | true =>
          have more : (!(remainder sep (pending ++ chunk)).isEmpty) = true := by
            cases rest : remainder sep (pending ++ chunk) with
            | nil => rw [rest, List.length_nil, none] at wider; cases wider
            | cons => rfl
          simp [more, Quiet]
      | false => simp [Quiet]

/-- A run of chunks passes quietly when no chunk, and after no chunk the remainder of the stream,
is over the limit. -/
theorem quiet_outputs_iff {exceeds : Nat → Bool} {pending : List α} {chunks : List (List α)}
    (none : exceeds 0 = false) (free : sep ∉ pending) (start : exceeds pending.length = false) :
    Quiet (outputs (feed exceeds sep) pending chunks).flatten ↔
      (∀ chunk ∈ chunks, exceeds chunk.length = false) ∧
        ∀ before, before <+: chunks →
          exceeds (remainder sep (pending ++ before.flatten)).length = false := by
  induction chunks generalizing pending with
  | nil =>
      simp only [outputs_nil, List.flatten_nil, List.prefix_nil, forall_eq, List.append_nil,
        remainder_of_not_mem free, start, List.not_mem_nil, false_implies, implies_true, and_true,
        iff_true]
      exact ⟨List.not_mem_nil, List.not_mem_nil⟩
  | cons chunk chunks ih =>
      rw [outputs_cons, List.flatten_cons, quiet_append, quiet_feed_iff none free start]
      constructor
      · intro ⟨⟨accepted, kept⟩, rest⟩
        have next := (feed_of_accepted free accepted).2
        have later := (ih (not_mem_feed free) (by rw [next]; exact kept)).mp rest
        refine ⟨?_, ?_⟩
        · intro c member
          rcases List.mem_cons.mp member with rfl | tail
          · exact accepted
          · exact later.1 c tail
        · intro before isPrefix
          rcases List.prefix_cons_iff.mp isPrefix with rfl | ⟨front, rfl, isFront⟩
          · rw [List.flatten_nil, List.append_nil, remainder_of_not_mem free]
            exact start
          · have here := later.2 front isFront
            rwa [next, ← remainder_append, List.append_assoc, ← List.flatten_cons] at here
      · intro ⟨accepted, kept⟩
        have here := accepted chunk List.mem_cons_self
        have next := (feed_of_accepted free here).2
        have first : exceeds (remainder sep (pending ++ chunk)).length = false := by
          have one := kept [chunk] (List.prefix_append [chunk] chunks)
          rwa [List.flatten_singleton] at one
        refine ⟨⟨here, first⟩, (ih (not_mem_feed free) (by rw [next]; exact first)).mpr
          ⟨fun c member => accepted c (List.mem_cons_of_mem chunk member), ?_⟩⟩
        intro before isPrefix
        have longer := kept (chunk :: before) (List.cons_prefix_cons.mpr ⟨rfl, isPrefix⟩)
        rwa [next, ← remainder_append, List.append_assoc, ← List.flatten_cons]

/-- A chunk of at most `bound` symbols completes a record longer than `bound` exactly when the
record that was pending becomes one. -/
theorem terminated_length_le_iff {pending chunk : List α} {bound : Nat} (free : sep ∉ pending)
    (fits : chunk.length ≤ bound) :
    (∀ record ∈ terminated sep (pending ++ chunk), record.length ≤ bound) ↔
      (sep ∈ chunk → pending.length + chunk.idxOf sep ≤ bound) := by
  rcases not_mem_or_first_separator sep chunk with absent | ⟨front, back, rfl, freeFront⟩
  · have none : terminated sep (pending ++ chunk) = [] :=
      terminated_of_not_mem fun member => (List.mem_append.mp member).elim free absent
    simp only [none, List.not_mem_nil, false_implies, implies_true, true_iff]
    exact fun member => (absent member).elim
  · have freeBoth : sep ∉ pending ++ front := fun member =>
      (List.mem_append.mp member).elim free freeFront
    have first : (front ++ sep :: back).idxOf sep = front.length := by
      rw [List.idxOf_append_of_notMem freeFront, List.idxOf_cons_self, Nat.add_zero]
    rw [← List.append_assoc, terminated_append_cons freeBoth, first]
    constructor
    · intro bounded _
      have head := bounded _ List.mem_cons_self
      rwa [List.length_append] at head
    · intro within record member
      rcases List.mem_cons.mp member with rfl | later
      · rw [List.length_append]
        exact within (List.mem_append_right front List.mem_cons_self)
      · have short := length_lt_of_mem_terminated later
        rw [List.length_append, List.length_cons] at fits
        omega

end Hypepool.Base
