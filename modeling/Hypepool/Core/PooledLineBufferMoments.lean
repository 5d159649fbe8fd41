import Hypepool.Core.PooledLineBufferFraming

/-!
# The queue of `PooledLineBuffer` during a call

`Stays bound` relates the queue before some events to the queue after them, when at no moment in
between the fragments in the queue amount to more than `bound` bytes.

* `stays_receiveLoop`: the loop of `Receive`, on what is queued and what is left of the chunk.
* `stays_receiveChunk`: a whole call.
-/

namespace Hypepool.PooledLineBuffer

open Base

/-- Whether an event is one of the queue. -/
def ofQueue : LineEvent → Bool
  | .enqueue _ | .dequeue _ => true
  | _ => false

/-- The events lead from one queue to the other, and the total size of the queue is within the
bound before, between and after them. -/
inductive Stays (bound : Nat) :
    List PooledArraySegment → List LineEvent → List PooledArraySegment → Prop
  | done {queue : List PooledArraySegment} (fits : queuedLength queue ≤ bound) :
    Stays bound queue [] queue
  | enqueue {queue queue' : List PooledArraySegment} {events : List LineEvent}
    {segment : PooledArraySegment} (fits : queuedLength queue ≤ bound)
    (later : Stays bound (queue ++ [segment]) events queue') :
    Stays bound queue (.enqueue segment.array.rental :: events) queue'
  | dequeue {queue queue' : List PooledArraySegment} {events : List LineEvent}
    {segment : PooledArraySegment} (fits : queuedLength (segment :: queue) ≤ bound)
    (later : Stays bound queue events queue') :
    Stays bound (segment :: queue) (.dequeue segment.array.rental :: events) queue'
  | other {queue queue' : List PooledArraySegment} {events : List LineEvent} {event : LineEvent}
    (fits : queuedLength queue ≤ bound) (neither : ofQueue event = false)
    (later : Stays bound queue events queue') :
    Stays bound queue (event :: events) queue'

section Stays

variable {bound : Nat} {queue queue' queue'' : List PooledArraySegment}
  {events later : List LineEvent}

theorem Stays.append (front : Stays bound queue events queue')
    (back : Stays bound queue' later queue'') : Stays bound queue (events ++ later) queue'' := by
  induction front with
  | done => exact back
  | enqueue fits _ ih => exact .enqueue fits (ih back)
  | dequeue fits _ ih => exact .dequeue fits (ih back)
  | other fits neither _ ih => exact .other fits neither (ih back)

theorem Stays.start (stays : Stays bound queue events queue') : queuedLength queue ≤ bound := by
  cases stays with
  | done fits | enqueue fits | dequeue fits | other fits => exact fits

theorem Stays.final (stays : Stays bound queue events queue') : queuedLength queue' ≤ bound := by
  induction stays with
  | done fits => exact fits
  | enqueue _ _ ih | dequeue _ _ ih | other _ _ _ ih => exact ih

/-- Any moment between two of the events finds some queue, which is within the bound. -/
theorem Stays.moment (stays : Stays bound queue (events ++ later) queue'') :
    ∃ queue', Stays bound queue events queue' ∧ Stays bound queue' later queue'' := by
  induction events generalizing queue with
  | nil => exact ⟨queue, .done stays.start, stays⟩
  | cons event events ih =>
      cases stays with
      | enqueue fits rest =>
          obtain ⟨middle, front, back⟩ := ih rest
          exact ⟨middle, .enqueue fits front, back⟩
      | dequeue fits rest =>
          obtain ⟨middle, front, back⟩ := ih rest
          exact ⟨middle, .dequeue fits front, back⟩
      | other fits neither rest =>
          obtain ⟨middle, front, back⟩ := ih rest
          exact ⟨middle, .other fits neither front, back⟩

/-- Events that do not concern the queue. -/
theorem Stays.of_others (fits : queuedLength queue ≤ bound)
    (others : ∀ event ∈ events, ofQueue event = false) :
    Stays bound queue events queue := by
  induction events with
  | nil => exact .done fits
  | cons event events ih =>
      exact .other fits (others event List.mem_cons_self)
        (ih fun other member => others other (List.mem_cons_of_mem event member))

/-- Copying the queue into a line empties it. -/
theorem stays_copyEvents (fits : queuedLength queue ≤ bound) :
    Stays bound queue (queue.flatMap copyEvents) [] := by
  induction queue with
  | nil => exact .done fits
  | cons segment queue ih =>
      have rest : queuedLength queue ≤ bound := Nat.le_trans (Nat.le_add_left _ _) fits
      rw [List.flatMap_cons]
      exact .dequeue fits (.other rest rfl (ih rest))

/-- So does assembling a line. -/
theorem stays_assembleEvents {pool : ArrayPool} {b : PooledLineBuffer} {piece : Bytes}
    (fits : queuedLength b.recvQueue ≤ bound) :
    Stays bound b.recvQueue (assembleEvents pool b piece) [] := by
  refine .other fits rfl ((stays_copyEvents fits).append (.of_others (Nat.zero_le _) ?_))
  intro event member
  split at member
  · cases List.mem_singleton.mp member
    rfl
  · cases member

theorem queuedLength_append (front back : List PooledArraySegment) :
    queuedLength (front ++ back) = queuedLength front + queuedLength back := by
  induction front with
  | nil => exact (Nat.zero_add _).symm
  | cons segment front ih =>
      rw [List.cons_append, queuedLength, ih, queuedLength, Nat.add_assoc]

end Stays

section Receive

variable {pool : ArrayPool} {b : PooledLineBuffer} {buf : RentedArray} {chunk tail : Bytes}
  {prevIndex remaining bound : Nat}

theorem stays_store_preventFlooding (data : buf.data = chunk ++ tail)
    (position : prevIndex + remaining = chunk.length) (more : 0 < remaining) (wf : WellFormed b)
    (room : queuedLength b.recvQueue + remaining ≤ bound) :
    ∃ b' events, (do
        store pool buf chunk.length prevIndex remaining
        preventFlooding : LineM Unit).run b = .ok () b' ∧
      b'.log = b.log ++ events ∧ Stays bound b.recvQueue events b'.recvQueue := by
  obtain ⟨fragment, rentals, keepLease, stored, storeRun, isFragment, content, shape⟩ :=
    run_store pool b data position more
  have size : fragment.size = remaining := by
    rw [← isFragment.length, content, List.length_drop]
    omega
  have fragments : ∀ segment ∈ b.recvQueue ++ [fragment], Fragment segment := by
    intro segment member
    rcases List.mem_append.mp member with queued | new
    · exact wf.fragments segment queued
    · exact List.mem_singleton.mp new ▸ isFragment
  obtain ⟨flooded, floodRun, _, errors⟩ := run_preventFlooding
    { b with
      recvQueue := b.recvQueue ++ [fragment]
      rentals := rentals
      keepLease := keepLease
      log := b.log ++ stored } fragments
  have before : queuedLength b.recvQueue ≤ bound := by omega
  have after : queuedLength (b.recvQueue ++ [fragment]) ≤ bound := by
    rw [queuedLength_append, queuedLength, queuedLength, size]
    exact room
  have reported : Stays bound (b.recvQueue ++ [fragment]) flooded (b.recvQueue ++ [fragment]) := by
    refine .of_others after fun event member => ?_
    obtain ⟨exception, rfl⟩ := errors event member
    rfl
  refine ⟨_, stored ++ flooded, (run_bind_of_ok storeRun).trans floodRun,
    List.append_assoc _ _ _, ?_⟩
  rcases shape with ⟨_, _, _, rfl⟩ | ⟨_, _, _, rfl⟩
  · exact .other before rfl (.enqueue before reported)
  · exact .enqueue before reported

/-- The induction is on `remaining`, as the loop itself: a line empties the queue, and only the last
turn stores anything. -/
theorem stays_receiveLoop (pool : ArrayPool) (b : PooledLineBuffer) (prevIndex : Nat)
    (data : buf.data = chunk ++ tail) (clean : newline ∉ tail)
    (position : prevIndex + remaining = chunk.length) (wf : WellFormed b)
    (room : queuedLength b.recvQueue + remaining ≤ bound) :
    ∃ b' events,
      (receiveLoop pool false buf chunk.length prevIndex remaining).run b = .ok () b' ∧
        b'.log = b.log ++ events ∧ Stays bound b.recvQueue events b'.recvQueue := by
  induction remaining using Nat.strongRecOn generalizing prevIndex b with
  | ind remaining ih =>
      have before : queuedLength b.recvQueue ≤ bound := by omega
      have nothing : b.log = b.log ++ [] := (List.append_nil _).symm
      rw [receiveLoop]
      split
      · rename_i more
        rw [run_bind_of_ok (EStateM.run_get b)]
        cases search : indexOf buf.data newline prevIndex (buf.data.length - prevIndex) with
        | none => exact stays_store_preventFlooding data position more wf room
        | some index =>
            obtain ⟨lower, received, piece, pieceLength, slice, free, rest⟩ :=
              newline_found data clean (by omega) search
            simp only
            split
            · split
              · exact ⟨_, [.onNext ⟨buf, prevIndex, index - prevIndex⟩], rfl, rfl,
                  .other before rfl (.done before)⟩
              · exact ⟨b, [], rfl, nothing, .done before⟩
            · have turn := run_assemble pool b buf wf.fragments slice
              rw [← pieceLength, run_bind_of_ok turn]
              obtain ⟨b', events, run, log, stays⟩ := ih (remaining - (piece.length + 1)) (by omega)
                (afterAssemble pool b piece) (index + 1) (by omega)
                ⟨fun _ member => absurd member List.not_mem_nil, List.not_mem_nil⟩
                (by rw [afterAssemble, queuedLength]; omega)
              exact ⟨b', assembleEvents pool b piece ++ events, run,
                log.trans (List.append_assoc _ _ _), (stays_assembleEvents before).append stays⟩
      · exact ⟨b, [], rfl, nothing, .done before⟩

theorem stays_receive (pool : ArrayPool) (chunk : Bytes) (wf : WellFormed b)
    (fits : queuedLength b.recvQueue ≤ bound)
    (room : exceeds b.maxLength chunk.length = false →
      queuedLength b.recvQueue + chunk.length ≤ bound) :
    ∃ b' events, (receive pool chunk chunk.length readBytes).run b = .ok () b' ∧
      b'.log = b.log ++ events ∧ Stays bound b.recvQueue events b'.recvQueue := by
  rw [receive, run_bind_of_ok (EStateM.run_get b)]
  split
  · exact ⟨b, [], rfl, (List.append_nil _).symm, .done fits⟩
  split
  · rename_i limit _
    exact ⟨_, [.onError (.incomingData limit)], run_emit _, rfl,
      .other fits rfl (.done fits)⟩
  · rename_i verdict
    have accepted : exceeds b.maxLength chunk.length = false := by rw [exceeds, verdict]; rfl
    obtain ⟨tail, clean, read⟩ := readBytes_cleared (pool.capacity b.rentals chunk.length)
    obtain ⟨b₂, events, loop, log, stays⟩ := stays_receiveLoop pool (started pool b chunk.length) 0
      (show (RentedArray.mk b.rentals (chunk ++ tail)).data = chunk ++ tail from rfl) clean
      (Nat.zero_add _) ⟨wf.fragments, wf.unterminated⟩ (room accepted)
    have body : (receiveInto pool chunk chunk.length readBytes false
        (nextArray pool b chunk.length)).run (started pool b chunk.length) = .ok () b₂ := by
      rw [receiveInto, nextArray, read, run_bind_of_ok run_liftExcept_ok]
      exact loop
    have recorded : b₂.log = b.log ++ .rent (nextArray pool b chunk.length) :: events := by
      rw [log, started, List.append_assoc, List.singleton_append]
    rw [run_bind_of_ok (run_rent _), run_bind_of_ok (EStateM.run_modify _ _)]
    cases kept : b₂.keepLease with
    | true =>
        refine ⟨b₂, .rent (nextArray pool b chunk.length) :: events, run_andFinally_of_ok body ?_,
          recorded, .other fits rfl stays⟩
        rw [run_bind_of_ok (EStateM.run_get b₂), kept]
        rfl
    | false =>
        refine ⟨{ b₂ with log := b₂.log ++ [.giveBack b.rentals] },
          .rent (nextArray pool b chunk.length) :: events ++ [.giveBack b.rentals],
          run_andFinally_of_ok body ?_, ?_,
          .other fits rfl
            (stays.append (.other stays.final rfl (.done stays.final)))⟩
        · rw [run_bind_of_ok (EStateM.run_get b₂), if_neg (by rw [kept]; decide)]
          rfl
        · dsimp only
          rw [recorded, List.append_assoc]

/-- The events `receiveChunk` records lead from the queue before the call to the queue after it. -/
theorem stays_receiveChunk (pool : ArrayPool) (chunk : Bytes) (wf : WellFormed b)
    (fits : queuedLength b.recvQueue ≤ bound)
    (room : exceeds b.maxLength chunk.length = false →
      queuedLength b.recvQueue + chunk.length ≤ bound) :
    Stays bound b.recvQueue (receiveChunk pool b chunk).1
      (receiveChunk pool b chunk).2.recvQueue := by
  have cleared : WellFormed { b with log := [] } := ⟨wf.fragments, wf.unterminated⟩
  obtain ⟨b', events, run, log, stays⟩ := stays_receive pool chunk cleared fits room
  have after : (receiveChunk pool b chunk).2 = b' := stateAfter_of_ok run
  have recorded : (receiveChunk pool b chunk).1 = b'.log := congrArg PooledLineBuffer.log after
  rw [recorded, after, log, List.nil_append]
  exact stays

end Receive

end Hypepool.PooledLineBuffer
