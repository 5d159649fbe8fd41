import Hypepool.Base.Ledger
import Hypepool.Core.PooledLineBufferFraming

/-!
# Inbound buffers have one owner

Each array a `PooledLineBuffer` rents is held by the running call, waits in `_recvQueue`, was passed
to `onNext` or was returned.  The log of the buffer is read as a ledger of its arrays, whatever
`readBuffer` writes into the rented array, and whether or not it throws.

* `run_receive_booked`: what one call does to the books.
* `arrays_have_one_owner`: the log of any calls and of `Dispose` can be entered as a whole, and
  every array is passed on or returned, once.
-/

namespace Hypepool.PooledLineBuffer

open Base

/-- `ArrayPool<byte>.Shared`, which rents out the empty array when no byte is asked for. -/
structure SharedArrayPool extends ArrayPool where
  nothing : ∀ rental, stale rental 0 = []

/-- A call of `Receive`. -/
structure ReceiveCall (T : Type) where
  buffer : T
  bufferSize : Nat
  /-- `readBuffer` writes into the array it is given, unless it throws. -/
  readBuffer : T → Bytes → Nat → Except NetException Bytes
  inPlace : ∀ buffer data count filled,
    readBuffer buffer data count = .ok filled → filled.length = data.length
  forceNewLine : Bool := false

/-- What an event means for the array it is about.  The empty array belongs to nobody. -/
def moveOf : LineEvent → Option (Move Nat)
  | .rent array => if array.data = [] then none else some ⟨.take, array.rental⟩
  | .giveBack rental => some ⟨.release, rental⟩
  | .enqueue rental => some ⟨.park, rental⟩
  | .dequeue rental => some ⟨.unpark, rental⟩
  | .onNext segment => some ⟨.hand, segment.array.rental⟩
  | .onError _ => none

def movesOf (log : List LineEvent) : List (Move Nat) := log.filterMap moveOf

/-- The arrays in `_recvQueue`. -/
def queued (queue : List PooledArraySegment) : List Nat := queue.map (·.array.rental)

/-- The log can be entered in a ledger, by which the arrays in `held` are held and those of the
queue are parked; and the pool has not rented out the arrays from `rentals` on. -/
structure Booked (log : List LineEvent) (queue : List PooledArraySegment) (rentals : Nat)
    (held : List Nat) : Prop where
  ledger : ∃ ledger, exec Ledger.move Ledger.empty (movesOf log) = some ledger ∧
    ledger.Accounts held (queued queue) ∧ ∀ rental, ledger rental ≠ none → rental < rentals

/-! ## One event -/

section Events

variable {log : List LineEvent} {queue : List PooledArraySegment} {rentals : Nat} {held : List Nat}

theorem movesOf_append (log events : List LineEvent) :
    movesOf (log ++ events) = movesOf log ++ movesOf events := List.filterMap_append

/-- The books of a new buffer. -/
theorem Booked.empty : Booked [] [] 0 [] :=
  ⟨Ledger.empty, rfl, Ledger.accounts_empty, fun _ taken => (taken rfl).elim⟩

/-- An event that is no move. -/
theorem Booked.skip (booked : Booked log queue rentals held) {event : LineEvent}
    (noMove : moveOf event = none) : Booked (log ++ [event]) queue rentals held := by
  refine ⟨?_⟩
  rw [movesOf_append, movesOf, movesOf, List.filterMap_cons_none noMove, List.filterMap_nil,
    List.append_nil]
  exact booked.ledger

/-- An event that is a move, by the rule of the move. -/
theorem Booked.enter {queue' : List PooledArraySegment} {rentals' : Nat} {held' : List Nat}
    (booked : Booked log queue rentals held) {event : LineEvent} {move : Move Nat}
    (isMove : moveOf event = some move) (more : rentals ≤ rentals') (known : move.item < rentals')
    (rule : ∀ ledger : Ledger Nat, ledger.Accounts held (queued queue) →
      (∀ rental, ledger rental ≠ none → rental < rentals) →
      ∃ ledger', ledger.move move = some ledger' ∧ ledger'.Accounts held' (queued queue')) :
    Booked (log ++ [event]) queue' rentals' held' := by
  obtain ⟨ledger, entered, accounts, bound⟩ := booked.ledger
  obtain ⟨ledger', taken, accounts'⟩ := rule ledger accounts bound
  refine ⟨ledger', ?_, accounts', ?_⟩
  · rw [movesOf_append]
    refine exec_append_eq_some.mpr ⟨ledger, entered, ?_⟩
    rw [movesOf, List.filterMap_cons_some isMove, List.filterMap_nil, exec_cons, taken]
    rfl
  · obtain ⟨-, rfl⟩ := Ledger.move_cases taken
    intro rental placed
    by_cases same : rental = move.item
    · rw [same]
      exact known
    · rw [Function.update_of_ne same] at placed
      exact Nat.lt_of_lt_of_le (bound rental placed) more

/-- What is held or queued was rented. -/
theorem Booked.known (booked : Booked log queue rentals held) {rental : Nat}
    (somewhere : rental ∈ held ∨ rental ∈ queued queue) : rental < rentals := by
  obtain ⟨ledger, -, accounts, bound⟩ := booked.ledger
  refine bound rental ?_
  rcases somewhere with isHeld | isQueued
  · rw [(accounts.held_iff rental).mpr isHeld]
    exact Option.some_ne_none _
  · rw [(accounts.parked_iff rental).mpr isQueued]
    exact Option.some_ne_none _

theorem Booked.rent (booked : Booked log queue rentals held) {array : RentedArray}
    (new : array.rental = rentals) (nonempty : array.data ≠ []) :
    Booked (log ++ [.rent array]) queue (rentals + 1) (array.rental :: held) := by
  subst new
  refine booked.enter (if_neg nonempty) (Nat.le_succ _) (Nat.lt_succ_self _) ?_
  intro ledger accounts bound
  refine accounts.take (not_not.mp fun placed => ?_)
  exact Nat.lt_irrefl _ (bound array.rental placed)

theorem Booked.rent_nothing (booked : Booked log queue rentals held) {array : RentedArray}
    (nothing : array.data = []) : Booked (log ++ [.rent array]) queue (rentals + 1) held := by
  have noMove : moveOf (.rent array) = none := if_pos nothing
  obtain ⟨ledger, entered, accounts, bound⟩ := (booked.skip noMove).ledger
  exact ⟨ledger, entered, accounts, fun rental placed => Nat.lt_succ_of_lt (bound rental placed)⟩

theorem Booked.giveBack {rental : Nat} (booked : Booked log queue rentals (rental :: held)) :
    Booked (log ++ [.giveBack rental]) queue rentals held :=
  booked.enter rfl (Nat.le_refl _) (booked.known (Or.inl List.mem_cons_self))
    fun _ accounts _ => accounts.release

theorem Booked.onNext {segment : PooledArraySegment}
    (booked : Booked log queue rentals (segment.array.rental :: held)) :
    Booked (log ++ [.onNext segment]) queue rentals held :=
  booked.enter rfl (Nat.le_refl _) (booked.known (Or.inl List.mem_cons_self))
    fun _ accounts _ => accounts.hand

theorem Booked.enqueue {segment : PooledArraySegment}
    (booked : Booked log queue rentals (segment.array.rental :: held)) :
    Booked (log ++ [.enqueue segment.array.rental]) (queue ++ [segment]) rentals held := by
  refine booked.enter rfl (Nat.le_refl _) (booked.known (Or.inl List.mem_cons_self)) ?_
  intro ledger accounts _
  rw [queued, List.map_append]
  exact accounts.park

theorem Booked.dequeue {segment : PooledArraySegment}
    (booked : Booked log (segment :: queue) rentals held) :
    Booked (log ++ [.dequeue segment.array.rental]) queue rentals (segment.array.rental :: held) :=
  booked.enter rfl (Nat.le_refl _) (booked.known (Or.inr List.mem_cons_self))
    fun _ accounts _ => accounts.unpark

/-- The fragments of the queue are taken out and given back in turn. -/
theorem Booked.copyEvents (booked : Booked log queue rentals held) :
    Booked (log ++ queue.flatMap copyEvents) [] rentals held := by
  induction queue generalizing log with
  | nil =>
      rw [List.flatMap_nil, List.append_nil]
      exact booked
  | cons segment queue ih =>
      have here := booked.dequeue.giveBack
      rw [List.append_assoc] at here
      rw [List.flatMap_cons, ← List.append_assoc]
      exact ih here

end Events

/-! ## One call -/

/-- A buffer whose running call holds the arrays in `held`. -/
structure Owned (b : PooledLineBuffer) (held : List Nat) : Prop where
  fragments : ∀ segment ∈ b.recvQueue, Fragment segment
  booked : Booked b.log b.recvQueue b.rentals held

/-- What the call that rented `buf` has to return in its `finally` block. -/
def leased (b : PooledLineBuffer) (buf : RentedArray) : List Nat :=
  if b.keepLease then [] else [buf.rental]

section Call

variable {pool : SharedArrayPool} {b : PooledLineBuffer} {held : List Nat}

/-- The line is held while the queue is copied, and passed on unless it is empty. -/
theorem Owned.afterAssemble (owned : Owned b held) (tail : Bytes) :
    Owned (afterAssemble pool.toArrayPool b tail) held := by
  refine ⟨fun _ member => (nomatch member), ?_⟩
  have size := pool.capacity b.rentals (pending b ++ tail).length
  simp only [PooledLineBuffer.afterAssemble, assembleEvents]
  split
  · rename_i more
    have nonempty : (nextArray pool.toArrayPool b (pending b ++ tail).length).data ≠ [] :=
      List.ne_nil_of_length_pos (Nat.lt_of_lt_of_le more size)
    have rented := (owned.booked.rent rfl nonempty).copyEvents
    have passed : Booked (_ ++ [.onNext (assembled pool.toArrayPool b tail)]) _ _ held :=
      rented.onNext
    rw [List.append_assoc, List.append_assoc] at passed
    exact passed
  · rename_i empty
    have none : (nextArray pool.toArrayPool b (pending b ++ tail).length).data = [] := by
      rw [Nat.eq_zero_of_not_pos empty]
      exact pool.nothing b.rentals
    have dropped := (owned.booked.rent_nothing none).copyEvents
    rw [List.append_assoc] at dropped
    rw [List.append_nil]
    exact dropped

/-- `assemble` returns for any piece of `buf`, and holds what was held before. -/
theorem owned_assemble (pool : SharedArrayPool) (buf : RentedArray) (prevIndex length : Nat)
    (owned : Owned b held) (inside : prevIndex + length ≤ buf.data.length) :
    ∃ b', (assemble pool.toArrayPool buf prevIndex length).run b = .ok () b' ∧ Owned b' held ∧
      b'.keepLease = b.keepLease := by
  have piece : ((buf.data.drop prevIndex).take length).length = length := by
    rw [List.length_take, List.length_drop]
    omega
  have slice : (buf.data.drop prevIndex).take ((buf.data.drop prevIndex).take length).length =
      (buf.data.drop prevIndex).take length := by rw [piece]
  have turn := run_assemble pool.toArrayPool b buf owned.fragments slice
  rw [piece] at turn
  exact ⟨_, turn, owned.afterAssemble _, rfl⟩

/-- A queue grown by a fragment that is queued under the call's own array or a new one. -/
theorem owned_store (pool : SharedArrayPool) {buf : RentedArray} {chunk tail : Bytes}
    {prevIndex remaining : Nat} (owned : Owned b [buf.rental]) (running : b.keepLease = false)
    (data : buf.data = chunk ++ tail) (position : prevIndex + remaining = chunk.length)
    (more : 0 < remaining) :
    ∃ b', (store pool.toArrayPool buf chunk.length prevIndex remaining).run b = .ok () b' ∧
      Owned b' (leased b' buf) := by
  obtain ⟨fragment, rentals, keepLease, events, run, isFragment, -, copied | lent⟩ :=
    run_store pool.toArrayPool b data position more
  all_goals
    have fragments : ∀ segment ∈ b.recvQueue ++ [fragment], Fragment segment := by
      intro segment member
      rcases List.mem_append.mp member with old | new
      · exact owned.fragments segment old
      · exact List.mem_singleton.mp new ▸ isFragment
    refine ⟨_, run, fragments, ?_⟩
  · obtain ⟨new, rfl, rfl, rfl⟩ := copied
    have size := pool.capacity b.rentals remaining
    have nonempty : (nextArray pool.toArrayPool b remaining).data ≠ [] :=
      List.ne_nil_of_length_pos (Nat.lt_of_lt_of_le more size)
    have rented := owned.booked.rent rfl nonempty
    have itself : (nextArray pool.toArrayPool b remaining).rental = fragment.array.rental :=
      new.symm
    rw [itself] at rented
    have queued := rented.enqueue
    rw [List.append_assoc] at queued
    simp only [leased, running, Bool.false_eq_true, if_false]
    exact queued
  · obtain ⟨same, rfl, rfl, rfl⟩ := lent
    have held := owned.booked
    rw [← same] at held
    exact held.enqueue

theorem Owned.log_of_onError (owned : Owned b held) {events : List LineEvent}
    (silent : ∀ event ∈ events, ∃ exception, event = .onError exception) :
    Owned { b with log := b.log ++ events } held := by
  induction events generalizing b with
  | nil =>
      rw [List.append_nil]
      exact owned
  | cons event events ih =>
      obtain ⟨exception, rfl⟩ := silent event List.mem_cons_self
      have first : Owned { b with log := b.log ++ [.onError exception] } held :=
        ⟨owned.fragments, owned.booked.skip rfl⟩
      have later := ih first fun event member => silent event (List.mem_cons_of_mem _ member)
      rw [List.append_assoc] at later
      exact later

/-- The rest of the chunk is stored, and the limit checked. -/
theorem owned_store_preventFlooding (pool : SharedArrayPool) {buf : RentedArray}
    {chunk tail : Bytes}
    (prevIndex remaining : Nat) (owned : Owned b [buf.rental]) (running : b.keepLease = false)
    (data : buf.data = chunk ++ tail) (position : prevIndex + remaining = chunk.length)
    (more : 0 < remaining) :
    ∃ b', (do
        store pool.toArrayPool buf chunk.length prevIndex remaining
        preventFlooding).run b = .ok () b' ∧ Owned b' (leased b' buf) := by
  obtain ⟨b₁, stored, owned₁⟩ := owned_store pool owned running data position more
  obtain ⟨events, checked, -, silent⟩ := run_preventFlooding b₁ owned₁.fragments
  rw [run_bind_of_ok stored]
  exact ⟨_, checked, owned₁.log_of_onError silent⟩

/-- The loop, from a `buf` of any contents: it returns, and leaves no array with the call but `buf`.
The induction is on `remaining`, which is what is left of the chunk. -/
theorem owned_receiveLoop (pool : SharedArrayPool) (forceNewLine : Bool) {buf : RentedArray}
    {bufferSize : Nat}
    (size : bufferSize ≤ buf.data.length) (prevIndex remaining : Nat)
    (position : remaining = bufferSize - prevIndex) (owned : Owned b [buf.rental])
    (running : b.keepLease = false) :
    ∃ b', (receiveLoop pool.toArrayPool forceNewLine buf bufferSize prevIndex remaining).run b =
        .ok () b' ∧ Owned b' (leased b' buf) := by
  have lease : ∀ b : PooledLineBuffer, b.keepLease = false → Owned b [buf.rental] →
      Owned b (leased b buf) := by
    intro b running owned
    rw [leased, running]
    exact owned
  induction remaining using Nat.strongRecOn generalizing prevIndex b with
  | ind remaining ih =>
      rw [receiveLoop]
      split
      · rename_i more
        have forced : ∃ b',
            (assemble pool.toArrayPool buf prevIndex (bufferSize - prevIndex)).run b = .ok () b' ∧
              Owned b' (leased b' buf) := by
          obtain ⟨b', run, owned', same⟩ :=
            owned_assemble pool buf prevIndex (bufferSize - prevIndex) owned (by omega)
          exact ⟨b', run, lease b' (same.trans running) owned'⟩
        rw [run_bind_of_ok (EStateM.run_get b)]
        cases search : indexOf buf.data newline prevIndex (buf.data.length - prevIndex) with
        | none =>
            cases forceNewLine with
            | true => exact forced
            | false =>
                have received : (buf.data.take bufferSize).length = bufferSize :=
                  List.length_take_of_le size
                have stored := owned_store_preventFlooding pool prevIndex remaining owned running
                  (List.take_append_drop bufferSize buf.data).symm (by omega) more
                rw [received] at stored
                exact stored
        | some index =>
            cases forceNewLine with
            | true => exact forced
            | false =>
                obtain ⟨lower, upper, -⟩ := indexOf_eq_some (by omega) search
                simp only
                split
                · split
                  · exact ⟨_, rfl, owned.fragments, owned.booked.onNext⟩
                  · exact ⟨b, rfl, lease b running owned⟩
                · obtain ⟨b₁, turn, owned₁, same⟩ :=
                    owned_assemble pool buf prevIndex (index - prevIndex) owned (by omega)
                  rw [run_bind_of_ok turn]
                  exact ih _ (by omega) (index + 1) (by omega) owned₁ (same.trans running)
      · exact ⟨b, rfl, lease b running owned⟩

/-- The `try` block, once `buf` is rented: when `readBuffer` throws, the call holds `buf`. -/
theorem owned_receiveInto {T : Type} (pool : SharedArrayPool) (call : ReceiveCall T)
    {buf : RentedArray} (size : call.bufferSize ≤ buf.data.length) (owned : Owned b [buf.rental])
    (running : b.keepLease = false) :
    let after := stateAfter (receiveInto pool.toArrayPool call.buffer call.bufferSize
      call.readBuffer call.forceNewLine buf) b
    Owned after (leased after buf) := by
  intro after
  have cleared : (if buf.data.length > call.bufferSize
      then arrayClear buf.data call.bufferSize (buf.data.length - call.bufferSize)
      else buf.data).length = buf.data.length := by
    split
    · simp only [arrayClear, List.length_append, List.length_take, List.length_drop,
        List.length_replicate]
      omega
    · rfl
  cases read : call.readBuffer call.buffer (if buf.data.length > call.bufferSize
      then arrayClear buf.data call.bufferSize (buf.data.length - call.bufferSize)
      else buf.data) call.bufferSize with
  | error e =>
      have unchanged : after = b := by
        have thrown : (receiveInto pool.toArrayPool call.buffer call.bufferSize call.readBuffer
            call.forceNewLine buf).run b = .error e b := by
          rw [receiveInto, read]
          exact run_bind_of_error run_liftExcept_error
        exact stateAfter_of_error thrown
      rw [unchanged, leased, running]
      exact owned
  | ok data =>
      have length := (call.inPlace _ _ _ _ read).trans cleared
      have size' : call.bufferSize ≤ (RentedArray.mk buf.rental data).data.length :=
        Nat.le_trans size (Nat.le_of_eq length.symm)
      obtain ⟨b', loop, owned'⟩ :=
        owned_receiveLoop pool call.forceNewLine size' 0 call.bufferSize rfl owned running
      have returned : (receiveInto pool.toArrayPool call.buffer call.bufferSize call.readBuffer
          call.forceNewLine buf).run b = .ok () b' := by
        rw [receiveInto, read, run_bind_of_ok run_liftExcept_ok]
        exact loop
      have ended : after = b' := stateAfter_of_ok returned
      rw [ended]
      exact owned'

/-- The `finally` block returns the array unless its lease is kept. -/
theorem owned_finally {buf : RentedArray} (owned : Owned b (leased b buf)) :
    ∃ b', (do
        let b ← get
        if b.keepLease then return () else giveBack buf : LineM Unit).run b = .ok () b' ∧
      Owned b' [] := by
  rw [run_bind_of_ok (EStateM.run_get b)]
  rw [leased] at owned
  split
  · rename_i kept
    rw [if_pos kept] at owned
    exact ⟨b, rfl, owned⟩
  · rename_i held
    rw [if_neg held] at owned
    exact ⟨_, rfl, owned.fragments, owned.booked.giveBack⟩

/-- The call as a whole, however it ends: it leaves no array held. -/
theorem owned_receive {T : Type} (pool : SharedArrayPool) (call : ReceiveCall T)
    (owned : Owned b []) :
    Owned (stateAfter (receive pool.toArrayPool call.buffer call.bufferSize call.readBuffer
      call.forceNewLine) b) [] := by
  rw [receive, stateAfter_bind_of_ok (EStateM.run_get b)]
  split
  · exact owned
  rename_i some
  split
  · exact ⟨owned.fragments, owned.booked.skip rfl⟩
  · have size := pool.capacity b.rentals call.bufferSize
    have nonempty : (nextArray pool.toArrayPool b call.bufferSize).data ≠ [] :=
      List.ne_nil_of_length_pos (Nat.lt_of_lt_of_le (Nat.pos_of_ne_zero some) size)
    have starts : Owned (started pool.toArrayPool b call.bufferSize)
        [(nextArray pool.toArrayPool b call.bufferSize).rental] :=
      ⟨owned.fragments, owned.booked.rent rfl nonempty⟩
    obtain ⟨b', finished, owned'⟩ := owned_finally (owned_receiveInto pool call size starts rfl)
    rw [stateAfter_bind_of_ok (run_rent _), stateAfter_bind_of_ok (EStateM.run_modify _ _)]
    have ended := stateAfter_andFinally finished
    exact ended ▸ owned'

/-- `Dispose` takes every fragment out of the queue and returns it. -/
theorem run_disposeQueue (b : PooledLineBuffer) {queue : List PooledArraySegment}
    (whole : b.recvQueue = queue) :
    (disposeQueue queue).run b =
      .ok () { b with recvQueue := [], log := b.log ++ queue.flatMap copyEvents } := by
  induction queue generalizing b with
  | nil =>
      cases b
      cases whole
      rw [List.flatMap_nil, List.append_nil]
      rfl
  | cons fragment rest ih =>
      rw [disposeQueue, run_bind_of_ok (run_dequeue fragment rest),
        run_bind_of_ok (run_giveBack fragment.array), ih _ rfl]
      simp only [List.flatMap_cons, copyEvents, List.append_assoc, List.cons_append,
        List.nil_append]

theorem owned_dispose (owned : Owned b []) :
    (stateAfter dispose b).recvQueue = [] ∧ Owned (stateAfter dispose b) [] := by
  have run : dispose.run b =
      .ok () { b with recvQueue := [], log := b.log ++ b.recvQueue.flatMap copyEvents } := by
    rw [dispose, run_bind_of_ok (EStateM.run_get b)]
    exact run_disposeQueue b rfl
  rw [stateAfter_of_ok run]
  exact ⟨rfl, fun _ member => (nomatch member), owned.booked.copyEvents⟩

end Call

/-! ## Any calls and then `Dispose` -/

section Run

variable {T : Type} (pool : SharedArrayPool)

/-- The buffer after a call, however the call ended. -/
def receiveCall (b : PooledLineBuffer) (call : ReceiveCall T) : Unit × PooledLineBuffer :=
  ((), stateAfter (receive pool.toArrayPool call.buffer call.bufferSize call.readBuffer
    call.forceNewLine) b)

theorem owned_receiveCalls (maxLength : Option Int) (calls : List (ReceiveCall T)) :
    Owned (finalState (receiveCall pool) { maxLength := maxLength } calls) [] :=
  finalState_invariant (fun b => Owned b []) (fun _ call owned => owned_receive pool call owned)
    ⟨fun _ member => (nomatch member), Booked.empty⟩

/-- **Inbound buffers have one owner.**  After any calls, and so after each of them, no array is
held and the parked ones are those in the queue.  In the log of the calls and of `Dispose`, no array
is ever moved from where it is not, and at any time an array is in one place, with what was done
with it so far; in the end it was passed on or returned. -/
theorem arrays_have_one_owner (maxLength : Option Int) (calls : List (ReceiveCall T)) :
    let b := finalState (receiveCall pool) { maxLength := maxLength } calls
    let disposed := stateAfter dispose b
    (∃ ledger, exec Ledger.move Ledger.empty (movesOf b.log) = some ledger ∧
      ∀ rental, ledger rental ≠ some .held ∧
        (ledger rental = some .parked ↔ rental ∈ b.recvQueue.map (·.array.rental))) ∧
    (∀ before after, disposed.log = before ++ after →
      ∃ ledger, exec Ledger.move Ledger.empty (movesOf before) = some ledger ∧
        ∀ array, .rent array ∈ before → array.data ≠ [] → ∃ place,
          ledger array.rental = some place ∧
          (movesOf before).count ⟨.hand, array.rental⟩ = (if place = .handed then 1 else 0) ∧
          (movesOf before).count ⟨.release, array.rental⟩ = if place = .released then 1 else 0) ∧
    disposed.recvQueue = [] ∧
    ∀ array, .rent array ∈ disposed.log → array.data ≠ [] →
      (movesOf disposed.log).count ⟨.hand, array.rental⟩ +
        (movesOf disposed.log).count ⟨.release, array.rental⟩ = 1 := by
  intro b disposed
  have moved : ∀ {log : List LineEvent} {array : RentedArray}, .rent array ∈ log →
      array.data ≠ [] → ∃ handling, ⟨handling, array.rental⟩ ∈ movesOf log :=
    fun member nonempty => ⟨.take, List.mem_filterMap.mpr ⟨_, member, if_neg nonempty⟩⟩
  have owned : Owned b [] := owned_receiveCalls pool maxLength calls
  obtain ⟨emptied, settled⟩ := owned_dispose owned
  obtain ⟨final, whole, finalAccounts, -⟩ := settled.booked.ledger
  refine ⟨?_, ?_, emptied, ?_⟩
  · obtain ⟨ledger, entered, accounts, -⟩ := owned.booked.ledger
    exact ⟨ledger, entered, fun rental =>
      ⟨fun held => (nomatch (accounts.held_iff rental).mp held), accounts.parked_iff rental⟩⟩
  · intro before after split
    rw [show stateAfter dispose b = disposed from rfl, split, movesOf_append] at whole
    obtain ⟨ledger, entered, -⟩ := exec_append_eq_some.mp whole
    exact ⟨ledger, entered, fun array member nonempty =>
      history_of_exec entered (moved member nonempty)⟩
  · intro array member nonempty
    obtain ⟨place, here, handed, released⟩ := history_of_exec whole (moved member nonempty)
    rw [show disposed = stateAfter dispose b from rfl, handed, released]
    cases place with
    | held => cases (finalAccounts.held_iff _).mp here
    | parked =>
        have queued := (finalAccounts.parked_iff _).mp here
        rw [emptied] at queued
        cases queued
    | handed => rfl
    | released => rfl

end Run

/-! ## A run -/

/-- Arrays come in multiples of sixteen bytes, with what was left in them. -/
def bucketPool : SharedArrayPool where
  stale rental size := List.replicate (16 * ((size + 15) / 16)) rental.toUInt8
  capacity rental size := by
    rw [List.length_replicate]
    omega
  nothing _ := rfl

theorem length_readBytes {src dst filled : Bytes} {count : Nat}
    (read : readBytes src dst count = .ok filled) : filled.length = dst.length := by
  unfold readBytes arrayCopy at read
  split at read
  · rename_i inside
    cases read
    simp only [List.length_append, List.length_take, List.length_drop]
    omega
  · cases read

/-- The call for a chunk. -/
def chunkCall (chunk : Bytes) : ReceiveCall Bytes where
  buffer := chunk
  bufferSize := chunk.length
  readBuffer := readBytes
  inPlace _ _ _ _ := length_readBytes

/-- A call whose `readBuffer` throws. -/
def failingCall (chunk : Bytes) : ReceiveCall Bytes where
  buffer := chunk
  bufferSize := chunk.length
  readBuffer _ _ _ := .error .argument
  inPlace _ _ _ _ := nofun

/-- The first array is queued and returned once its line is assembled in the third, which is handed
on; the second and the last hold chunks and are returned at the end of their calls; the fourth waits
in the queue for `Dispose`. -/
theorem arrays_have_one_owner_sample :
    let b := finalState (receiveCall bucketPool) { maxLength := some 8 }
      [chunkCall (ascii "ab"), chunkCall (ascii "c\nd"), failingCall (ascii "e")]
    let disposed := stateAfter dispose b
    movesOf b.log = [⟨.take, 0⟩, ⟨.park, 0⟩, ⟨.take, 1⟩, ⟨.take, 2⟩, ⟨.unpark, 0⟩, ⟨.release, 0⟩,
      ⟨.hand, 2⟩, ⟨.take, 3⟩, ⟨.park, 3⟩, ⟨.release, 1⟩, ⟨.take, 4⟩, ⟨.release, 4⟩] ∧
    linesOf b.log = [ascii "abc"] ∧
    movesOf disposed.log = movesOf b.log ++ [⟨.unpark, 3⟩, ⟨.release, 3⟩] ∧
    disposed.recvQueue = [] ∧
    ∀ array, .rent array ∈ disposed.log → array.data ≠ [] →
      (movesOf disposed.log).count ⟨.hand, array.rental⟩ +
        (movesOf disposed.log).count ⟨.release, array.rental⟩ = 1 := by
  intro b disposed
  obtain ⟨-, -, emptied, settled⟩ := arrays_have_one_owner bucketPool (some 8)
    [chunkCall (ascii "ab"), chunkCall (ascii "c\nd"), failingCall (ascii "e")]
  exact ⟨by decide +kernel, by decide +kernel, by decide +kernel, emptied, settled⟩

end Hypepool.PooledLineBuffer
