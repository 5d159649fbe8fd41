import Hypepool.Core.PooledLineBufferFraming

/-!
# The limit of `PooledLineBuffer`

`Receive` compares the limit with the size of one chunk and with what is queued after a fragment was
stored, but not with a line it assembles from the queue and a chunk.  `receive_within_limit_iff`
says for which streams every line delivered before the first error is within the limit all the
same: those in which no accepted chunk ends a pending line beyond it.
-/

namespace Hypepool.PooledLineBuffer

open Base

/-- `new PooledLineBuffer(maxLength)`. -/
def limitedTo (maxLength : Nat) : PooledLineBuffer := { maxLength := some maxLength }

/-- No line delivered up to and including the first call that reports an error is longer than the
limit. -/
def DeliversWithin (pool : ArrayPool) (m : Nat) (chunks : List Bytes) : Prop :=
  ∀ before chunk after, chunks = before ++ chunk :: after →
    (outputs (receiveChunk pool) (limitedTo m) before).flatMap errorsOf = [] →
    ∀ segment, .onNext segment ∈
        (receiveChunk pool (finalState (receiveChunk pool) (limitedTo m) before) chunk).1 →
      segment.size ≤ m

/-- A stream of chunks within the limit whose remainder never outgrows it. -/
def Unreported (m : Nat) (chunks : List Bytes) : Prop :=
  (∀ chunk ∈ chunks, chunk.length ≤ m) ∧
    ∀ before, before <+: chunks → (remainder newline before.flatten).length ≤ m

/-- No chunk within the limit ends the line that is pending before it beyond the limit. -/
def LinesClose (m : Nat) (chunks : List Bytes) : Prop :=
  ∀ before chunk after, chunks = before ++ chunk :: after → Unreported m before →
    chunk.length ≤ m → newline ∈ chunk →
    (remainder newline before.flatten).length + chunk.idxOf newline ≤ m

theorem exceeds_eq_false_iff {m size : Nat} : exceeds (some m) size = false ↔ size ≤ m := by
  simp [exceeds, exceeded, Option.filter]

theorem exceeds_eq_true_iff {m size : Nat} : exceeds (some m) size = true ↔ m < size := by
  simp [exceeds, exceeded, Option.filter]

theorem errorsOf_eq_nil_iff (log : List LineEvent) :
    errorsOf log = [] ↔ Quiet (log.filterMap framed) := by
  induction log with
  | nil => exact ⟨fun _ => ⟨List.not_mem_nil, List.not_mem_nil⟩, fun _ => rfl⟩
  | cons event log ih =>
      cases event with
      | onError exception => cases exception <;> simp [errorsOf, framed, Quiet]
      | onNext segment =>
          rw [errorsOf, List.filterMap_cons_none rfl, ← errorsOf, ih,
            List.filterMap_cons_some (f := framed) (a := .onNext segment) rfl]
          simp only [Quiet, List.mem_cons, reduceCtorEq, false_or]
      | _ =>
          rw [errorsOf, List.filterMap_cons_none rfl, ← errorsOf, ih,
            List.filterMap_cons_none rfl]

section Limit

variable {pool : ArrayPool} {m : Nat}

/-- The calls on a stream report nothing exactly when the stream is within the limit. -/
theorem unreported_iff (chunks : List Bytes) :
    (outputs (receiveChunk pool) (limitedTo m) chunks).flatMap errorsOf = [] ↔
      Unreported m chunks := by
  have framing := (receiveChunks_refine pool (Receives.empty (some m)) chunks).1
  have none : exceeds (some (m : Int)) 0 = false := exceeds_eq_false_iff.mpr (Nat.zero_le m)
  have quiet : Quiet (outputs (feed (exceeds (some (m : Int))) newline) [] chunks).flatten ↔ _ :=
    quiet_outputs_iff none List.not_mem_nil none
  have perCall : ∀ logs : List (List LineEvent), logs.flatMap errorsOf = [] ↔
      Quiet (logs.map (·.filterMap framed)).flatten := by
    intro logs
    rw [← List.filterMap_flatten, ← errorsOf_eq_nil_iff, errorsOf, List.filterMap_flatten]
    rfl
  rw [perCall, limitedTo, framing, quiet]
  simp only [exceeds_eq_false_iff, List.nil_append, Unreported]

theorem sizes_within_iff_lines {log : List LineEvent}
    (sized : ∀ segment, .onNext segment ∈ log → segment.toArray.length = segment.size) :
    (∀ segment, .onNext segment ∈ log → segment.size ≤ m) ↔
      ∀ line ∈ records (log.filterMap framed), line.length ≤ m := by
  rw [← linesOf_eq]
  constructor
  · intro within line member
    obtain ⟨event, logged, emitted⟩ := List.mem_filterMap.mp member
    cases event with
    | onNext segment =>
        cases Option.some.inj emitted
        rw [sized segment logged]
        exact within segment logged
    | _ => cases emitted
  · intro within segment logged
    rw [← sized segment logged]
    exact within _ (List.mem_filterMap.mpr ⟨_, logged, rfl⟩)

/-- The lines of one call are within the limit exactly when the pending line ends within it. -/
theorem sizes_within_iff {b : PooledLineBuffer} {waiting chunk : Bytes}
    (receives : Receives (some m) b waiting) :
    (∀ segment, .onNext segment ∈ (receiveChunk pool b chunk).1 → segment.size ≤ m) ↔
      (chunk.length ≤ m → newline ∈ chunk → waiting.length + chunk.idxOf newline ≤ m) := by
  have free : newline ∉ waiting := receives.queued ▸ receives.wellFormed.unterminated
  have sized : ∀ segment, .onNext segment ∈ (receiveChunk pool b chunk).1 →
      segment.toArray.length = segment.size := by
    obtain ⟨received, log⟩ := receiveChunk_received pool receives.wellFormed chunk
    obtain ⟨events, recorded, sized, _⟩ := received.events
    rwa [log, recorded, List.nil_append]
  rw [sizes_within_iff_lines sized, (receiveChunk_refines pool chunk receives).1]
  by_cases fits : chunk.length ≤ m
  · rw [(feed_of_accepted free (exceeds_eq_false_iff.mpr fits)).1,
      ← terminated_length_le_iff free fits]
    constructor
    · intro within _ record member
      cases record with
      | nil => exact Nat.zero_le m
      | cons => exact within _ (List.mem_filter.mpr ⟨member, rfl⟩)
    · intro within record member
      exact within fits record (List.mem_filter.mp member).1
  · have wide : exceeds (some (m : Int)) chunk.length = true := exceeds_eq_true_iff.mpr (by omega)
    have more : chunk ≠ [] := by
      intro nothing
      rw [nothing, List.length_nil] at fits
      omega
    rw [feed_refused more wide]
    exact ⟨fun _ small => (fits small).elim, fun _ line member => (nomatch member)⟩

end Limit

/-- **The exact reach of the limit.**  The lines delivered up to the first error are within the
limit if and only if no accepted chunk ends a pending line beyond it. -/
theorem receive_within_limit_iff (pool : ArrayPool) (m : Nat) (chunks : List Bytes) :
    DeliversWithin pool m chunks ↔ LinesClose m chunks := by
  have step : ∀ before chunk, Unreported m before →
      ((∀ segment, .onNext segment ∈
          (receiveChunk pool (finalState (receiveChunk pool) (limitedTo m) before) chunk).1 →
          segment.size ≤ m) ↔
        (chunk.length ≤ m → newline ∈ chunk →
          (remainder newline before.flatten).length + chunk.idxOf newline ≤ m)) := by
    intro before chunk unreported
    have receives := (receiveChunks_refine pool (Receives.empty (some m)) before).2
    have accepted : ∀ c ∈ before, exceeds (some (m : Int)) c.length = false := fun c member =>
      exceeds_eq_false_iff.mpr (unreported.1 c member)
    rw [feed_finalState List.not_mem_nil accepted, List.nil_append] at receives
    exact sizes_within_iff receives
  constructor
  · intro within before chunk after split unreported
    exact (step before chunk unreported).mp
      (within before chunk after split ((unreported_iff before).mpr unreported))
  · intro close before chunk after split silent
    have unreported := (unreported_iff before).mp silent
    exact (step before chunk unreported).mpr (close before chunk after split unreported)

/-- An array pool that hands out arrays of exactly the requested size. -/
def exactPool : ArrayPool := ⟨fun _ size => List.replicate size 0, by simp⟩

/-- `dead`, `bee` and a newline under a limit of five: neither call reports an error, and the second
delivers a line of seven bytes. -/
theorem receive_delivers_beyond_limit :
    ¬ DeliversWithin exactPool 5 [ascii "dead", ascii "bee\n"] := by
  intro within
  have split : [ascii "dead", ascii "bee\n"] = [ascii "dead"] ++ ascii "bee\n" :: [] := rfl
  have line := within [ascii "dead"] (ascii "bee\n") [] split (by decide +kernel)
    ⟨⟨2, ascii "deadbee"⟩, 0, 7⟩ (by decide +kernel)
  exact absurd line (by decide)

end Hypepool.PooledLineBuffer
