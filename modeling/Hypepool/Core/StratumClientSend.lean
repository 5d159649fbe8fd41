import Hypepool.Base.Effect
import Hypepool.Base.Run
import Hypepool.Common.Buffers

/-!
# The send side of `StratumClient`

Any number of `Send` calls run on any tasks against the loop thread of the connection.  They share
`IsAlive`, the queue of segments and the asynchronous handle that wakes the loop thread up; the loop
thread drains the queue, and closes the connection when its reading side has completed.  `step` is
one atomic step of one of them; the steps of a call and of the loop thread follow the statements of
`Send`, `SendInternal`, `DrainSendQueue` and of the `onCompleted` handler of `Receive`.

The array a call rents is named by the call.  Once it is back in the pool, anybody may rent it and
write into it (`reuse`).
-/

namespace Hypepool

open Base

/-- A `MemoryStream` over an array it cannot enlarge. -/
structure MemoryStream where
  buffer : Bytes
  position : Nat := 0

/-- `Write`, and `WriteByte` for a single byte. -/
def MemoryStream.write (stream : MemoryStream) (bytes : Bytes) :
    Except NetException MemoryStream :=
  if stream.position + bytes.length ≤ stream.buffer.length then
    .ok ⟨stream.buffer.take stream.position ++ bytes ++
      stream.buffer.drop (stream.position + bytes.length), stream.position + bytes.length⟩
  else .error .notSupported

namespace StratumClient

/-- `MaxOutboundRequestLength`. -/
def maxOutboundRequestLength : Nat := 0x4000

/-- The serialized payload and a newline, written into a rented array: its contents and the
stream's position.  The serializer's pieces arrive in the stream one after the other, so that their
concatenation `json` is what fits or does not. -/
def serialize (array json : Bytes) : Except NetException (Bytes × Nat) := do
  let stream ← MemoryStream.write { buffer := array } json
  let stream ← stream.write [0x0a]
  return (stream.buffer, stream.position)

theorem write_front {array bytes : Bytes} (fits : bytes.length ≤ array.length) :
    MemoryStream.write { buffer := array } bytes =
      .ok ⟨bytes ++ array.drop bytes.length, bytes.length⟩ := by
  rw [MemoryStream.write, if_pos (by dsimp only; omega)]
  simp

theorem serialize_of_fits {array json : Bytes} (fits : json.length + 1 ≤ array.length) :
    serialize array json =
      .ok (json ++ [0x0a] ++ array.drop (json.length + 1), json.length + 1) := by
  have newline : MemoryStream.write ⟨json ++ array.drop json.length, json.length⟩ [0x0a] =
      .ok ⟨json ++ [0x0a] ++ array.drop (json.length + 1), json.length + 1⟩ := by
    rw [MemoryStream.write, if_pos (by simp; omega)]
    simp [List.drop_append, List.drop_eq_nil_of_le]
  rw [serialize, write_front (by omega), ok_bind, newline, ok_bind]
  rfl

theorem serialize_of_exceeds {array json : Bytes} (exceeds : array.length < json.length + 1) :
    serialize array json = .error .notSupported := by
  rcases Nat.lt_or_ge array.length json.length with longer | fits
  · rw [serialize, MemoryStream.write, if_neg (by dsimp only; omega), error_bind]
  · have newline : MemoryStream.write ⟨json ++ array.drop json.length, json.length⟩ [0x0a] =
        .error .notSupported := by
      rw [MemoryStream.write, if_neg (by simp; omega)]
    rw [serialize, write_front fits, ok_bind, newline, error_bind]

/-- How far a `Send` call has come. -/
inductive SenderPhase
  | idle
  /-- it has found `IsAlive` false and returns. -/
  | skipped
  | tested
  | rented
  | serialized (size : Nat)
  /-- its segment is in the queue, and `_sendQueueDrainer.Send()` is next. -/
  | enqueued
  | sent
  /-- serializing has thrown, and the `catch` block is next. -/
  | failed
  | thrown
  /-- `_sendQueueDrainer.Send()` has thrown `ObjectDisposedException`, and `buffer.Dispose()` is
  next. -/
  | refused
  | released
  deriving DecidableEq

/-- A queued segment: the array of a call, and a size. -/
structure Segment (calls : Nat) where
  call : Fin calls
  size : Nat
  deriving DecidableEq

/-- What the loop thread is doing. -/
inductive LoopPhase (calls : Nat)
  | idle
  | draining
  | writing (segment : Segment calls)
  /-- `QueueWrite` is over, normally or not, and the segment is about to be disposed. -/
  | written (call : Fin calls) (thrown : Bool)
  /-- `IsAlive` is false, and the `UserToken` is next. -/
  | completed
  /-- the drainer is next. -/
  | detached
  | emptying
  | discarding (call : Fin calls)
  | closed
  deriving DecidableEq

structure State (calls : Nat) where
  isAlive : Bool := true
  /-- the drainer's `UserToken` is the `Tcp`, not null. -/
  userToken : Bool := true
  drainerDisposed : Bool := false
  sendQueue : List (Segment calls) := []
  arrays : Fin calls → Bytes := fun _ => []
  sender : Fin calls → SenderPhase := fun _ => .idle
  loop : LoopPhase calls := .idle
  /-- the arrays returned to the pool by the calls, and by the loop thread. -/
  senderReturns : List (Fin calls) := []
  loopReturns : List (Fin calls) := []
  /-- the calls whose segment was enqueued, and what `QueueWrite` was given, in order. -/
  enqueued : List (Fin calls) := []
  handed : List (Fin calls × Bytes) := []

inductive Label (calls : Nat)
  | test (call : Fin calls)
  | rent (call : Fin calls) (array : Bytes)
  | serialize (call : Fin calls)
  | enqueue (call : Fin calls)
  | signal (call : Fin calls)
  | giveBack (call : Fin calls)
  /-- the drainer's callback runs; the `Tcp` is valid, not closing and writable, or it is not. -/
  | drain (usable : Bool)
  | dequeue
  | queueWrite (throws : Bool)
  | dispose
  /-- the reading side completes. -/
  | complete
  | clearToken
  | disposeDrainer
  /-- somebody disconnects the client. -/
  | disconnect
  /-- the new owner of a returned array writes into it. -/
  | reuse (call : Fin calls) (array : Bytes)
  deriving DecidableEq

variable {calls : Nat}

namespace State

def setSender (s : State calls) (call : Fin calls) (phase : SenderPhase) : State calls :=
  { s with sender := fun other => if other = call then phase else s.sender other }

def setArray (s : State calls) (call : Fin calls) (array : Bytes) : State calls :=
  { s with arrays := fun other => if other = call then array else s.arrays other }

/-- The arrays returned to the pool, as often as they were. -/
def returned (s : State calls) : List (Fin calls) := s.loopReturns ++ s.senderReturns

end State

/-- The steps of `Send` and `SendInternal`. -/
def sendStep (json : Fin calls → Bytes) (s : State calls) (call : Fin calls) :
    SenderPhase → Label calls → Option (State calls)
  | .idle, .test _ => some (s.setSender call (if s.isAlive then .tested else .skipped))
  | .tested, .rent _ array =>
      if maxOutboundRequestLength ≤ array.length then
        some ((s.setArray call array).setSender call .rented)
      else none
  | .rented, .serialize _ =>
      match serialize (s.arrays call) (json call) with
      | .ok (array, size) => some ((s.setArray call array).setSender call (.serialized size))
      | .error _ => some (s.setSender call .failed)
  | .serialized size, .enqueue _ =>
      some { s.setSender call .enqueued with
        sendQueue := s.sendQueue ++ [⟨call, size⟩]
        enqueued := s.enqueued ++ [call] }
  | .enqueued, .signal _ =>
      some (s.setSender call (if s.drainerDisposed then .refused else .sent))
  | .failed, .giveBack _ =>
      some { s.setSender call .thrown with senderReturns := s.senderReturns ++ [call] }
  | .refused, .giveBack _ =>
      some { s.setSender call .released with senderReturns := s.senderReturns ++ [call] }
  | _, _ => none

/-- The steps of the loop thread: `DrainSendQueue` and the `onCompleted` handler. -/
def loopStep (s : State calls) : LoopPhase calls → Label calls → Option (State calls)
  | .idle, .drain usable =>
      if s.drainerDisposed then none
      else some { s with loop := if s.userToken && usable then .draining else .idle }
  | .draining, .dequeue =>
      match s.sendQueue with
      | [] => some { s with loop := .idle }
      | segment :: rest => some { s with sendQueue := rest, loop := .writing segment }
  | .writing segment, .queueWrite throws =>
      some { s with
        loop := .written segment.call throws
        handed := s.handed ++ [(segment.call, (s.arrays segment.call).take segment.size)] }
  | .written call thrown, .dispose =>
      some { s with
        loop := if thrown then .idle else .draining
        loopReturns := s.loopReturns ++ [call] }
  | .idle, .complete => some { s with isAlive := false, loop := .completed }
  | .completed, .clearToken => some { s with userToken := false, loop := .detached }
  | .detached, .disposeDrainer => some { s with drainerDisposed := true, loop := .emptying }
  | .emptying, .dequeue =>
      match s.sendQueue with
      | [] => some { s with loop := .closed }
      | segment :: rest => some { s with sendQueue := rest, loop := .discarding segment.call }
  | .discarding call, .dispose =>
      some { s with loop := .emptying, loopReturns := s.loopReturns ++ [call] }
  | _, _ => none

/-- One step of a call, of the loop thread or of the surroundings. -/
def step (json : Fin calls → Bytes) (s : State calls) (label : Label calls) :
    Option (State calls) :=
  match label with
  | .test call | .rent call _ | .serialize call | .enqueue call | .signal call | .giveBack call =>
      sendStep json s call (s.sender call) label
  | .disconnect => some { s with isAlive := false }
  | .reuse call array =>
      if call ∈ s.returned ∧ array.length = (s.arrays call).length then
        some (s.setArray call array)
      else none
  | _ => loopStep s s.loop label

/-! ## The enabled steps -/

section Enabled

variable {json : Fin calls → Bytes} {s t : State calls} {call other : Fin calls}
  {phase : SenderPhase} {label : Label calls}

@[simp] theorem sender_setSender_self : (s.setSender call phase).sender call = phase := if_pos rfl

theorem sender_setSender_of_ne (differs : other ≠ call) :
    (s.setSender call phase).sender other = s.sender other := if_neg differs

@[simp] theorem arrays_setSender : (s.setSender call phase).arrays = s.arrays := rfl

@[simp] theorem arrays_setArray_self {array : Bytes} :
    (s.setArray call array).arrays call = array := if_pos rfl

theorem arrays_setArray_of_ne {array : Bytes} (differs : other ≠ call) :
    (s.setArray call array).arrays other = s.arrays other := if_neg differs

/-- One rule for each way a step can be taken, with what it finds and what it leaves. -/
inductive Taken (json : Fin calls → Bytes) (s : State calls) : Label calls → State calls → Prop
  | test {call : Fin calls} (here : s.sender call = .idle) :
    Taken json s (.test call) (s.setSender call (if s.isAlive then .tested else .skipped))
  | rent {call : Fin calls} {array : Bytes} (here : s.sender call = .tested)
    (large : maxOutboundRequestLength ≤ array.length) :
    Taken json s (.rent call array) ((s.setArray call array).setSender call .rented)
  | serialize {call : Fin calls} {array : Bytes} {size : Nat} (here : s.sender call = .rented)
    (fits : StratumClient.serialize (s.arrays call) (json call) = .ok (array, size)) :
    Taken json s (.serialize call) ((s.setArray call array).setSender call (.serialized size))
  | exceed {call : Fin calls} {e : NetException} (here : s.sender call = .rented)
    (throws : StratumClient.serialize (s.arrays call) (json call) = .error e) :
    Taken json s (.serialize call) (s.setSender call .failed)
  | enqueue {call : Fin calls} {size : Nat} (here : s.sender call = .serialized size) :
    Taken json s (.enqueue call) { s.setSender call .enqueued with
      sendQueue := s.sendQueue ++ [⟨call, size⟩]
      enqueued := s.enqueued ++ [call] }
  | signal {call : Fin calls} (here : s.sender call = .enqueued) :
    Taken json s (.signal call) (s.setSender call (if s.drainerDisposed then .refused else .sent))
  | giveBackFailed {call : Fin calls} (here : s.sender call = .failed) :
    Taken json s (.giveBack call)
      { s.setSender call .thrown with senderReturns := s.senderReturns ++ [call] }
  | giveBackRefused {call : Fin calls} (here : s.sender call = .refused) :
    Taken json s (.giveBack call)
      { s.setSender call .released with senderReturns := s.senderReturns ++ [call] }
  | drain {usable : Bool} (here : s.loop = .idle) (present : s.drainerDisposed = false) :
    Taken json s (.drain usable)
      { s with loop := if s.userToken && usable then .draining else .idle }
  | drained (here : s.loop = .draining) (empty : s.sendQueue = []) :
    Taken json s .dequeue { s with loop := .idle }
  | dequeue {segment : Segment calls} {rest : List (Segment calls)}
    (here : s.loop = .draining) (queue : s.sendQueue = segment :: rest) :
    Taken json s .dequeue { s with sendQueue := rest, loop := .writing segment }
  | queueWrite {segment : Segment calls} {throws : Bool} (here : s.loop = .writing segment) :
    Taken json s (.queueWrite throws) { s with
      loop := .written segment.call throws
      handed := s.handed ++ [(segment.call, (s.arrays segment.call).take segment.size)] }
  | dispose {call : Fin calls} {thrown : Bool} (here : s.loop = .written call thrown) :
    Taken json s .dispose { s with
      loop := if thrown then .idle else .draining
      loopReturns := s.loopReturns ++ [call] }
  | complete (here : s.loop = .idle) :
    Taken json s .complete { s with isAlive := false, loop := .completed }
  | clearToken (here : s.loop = .completed) :
    Taken json s .clearToken { s with userToken := false, loop := .detached }
  | disposeDrainer (here : s.loop = .detached) :
    Taken json s .disposeDrainer { s with drainerDisposed := true, loop := .emptying }
  | emptied (here : s.loop = .emptying) (empty : s.sendQueue = []) :
    Taken json s .dequeue { s with loop := .closed }
  | discard {segment : Segment calls} {rest : List (Segment calls)}
    (here : s.loop = .emptying) (queue : s.sendQueue = segment :: rest) :
    Taken json s .dequeue { s with sendQueue := rest, loop := .discarding segment.call }
  | disposeDiscarded {call : Fin calls} (here : s.loop = .discarding call) :
    Taken json s .dispose { s with loop := .emptying, loopReturns := s.loopReturns ++ [call] }
  | disconnect : Taken json s .disconnect { s with isAlive := false }
  | reuse {call : Fin calls} {array : Bytes} (back : call ∈ s.returned)
    (length : array.length = (s.arrays call).length) :
    Taken json s (.reuse call array) (s.setArray call array)

theorem taken_of_sendStep (taken : sendStep json s call (s.sender call) label = some t)
    (mine : label = .test call ∨ (∃ array, label = .rent call array) ∨ label = .serialize call ∨
      label = .enqueue call ∨ label = .signal call ∨ label = .giveBack call) :
    Taken json s label t := by
  cases here : s.sender call <;> rw [here] at taken <;>
    rcases mine with rfl | ⟨array, rfl⟩ | rfl | rfl | rfl | rfl <;>
    simp only [sendStep, reduceCtorEq, Option.some.injEq] at taken
  case idle => exact taken ▸ .test here
  case tested =>
    split at taken
    case isTrue large => exact Option.some.inj taken ▸ .rent here large
    case isFalse => cases taken
  case rented =>
    split at taken
    case h_1 fits => exact Option.some.inj taken ▸ .serialize here fits
    case h_2 throws => exact Option.some.inj taken ▸ .exceed here throws
  case serialized => exact taken ▸ .enqueue here
  case enqueued => exact taken ▸ .signal here
  case failed => exact taken ▸ .giveBackFailed here
  case refused => exact taken ▸ .giveBackRefused here

theorem taken_of_loopStep (taken : loopStep s s.loop label = some t) : Taken json s label t := by
  unfold loopStep at taken
  split at taken
  case h_1 here =>
    split at taken
    case isTrue => cases taken
    case isFalse present =>
      exact Option.some.inj taken ▸ .drain here (Bool.eq_false_iff.mpr present)
  case h_2 here =>
    split at taken
    case h_1 empty => exact Option.some.inj taken ▸ .drained here empty
    case h_2 queue => exact Option.some.inj taken ▸ .dequeue here queue
  case h_3 here => exact Option.some.inj taken ▸ .queueWrite here
  case h_4 here => exact Option.some.inj taken ▸ .dispose here
  case h_5 here => exact Option.some.inj taken ▸ .complete here
  case h_6 here => exact Option.some.inj taken ▸ .clearToken here
  case h_7 here => exact Option.some.inj taken ▸ .disposeDrainer here
  case h_8 here =>
    split at taken
    case h_1 empty => exact Option.some.inj taken ▸ .emptied here empty
    case h_2 queue => exact Option.some.inj taken ▸ .discard here queue
  case h_9 here => exact Option.some.inj taken ▸ .disposeDiscarded here
  case h_10 => cases taken

/-- The enabled steps are those of the rules. -/
theorem step_cases (taken : step json s label = some t) : Taken json s label t := by
  unfold step at taken
  split at taken
  case h_1 => exact taken_of_sendStep taken (Or.inl rfl)
  case h_2 => exact taken_of_sendStep taken (Or.inr (Or.inl ⟨_, rfl⟩))
  case h_3 => exact taken_of_sendStep taken (Or.inr (Or.inr (Or.inl rfl)))
  case h_4 => exact taken_of_sendStep taken (Or.inr (Or.inr (Or.inr (Or.inl rfl))))
  case h_5 => exact taken_of_sendStep taken (Or.inr (Or.inr (Or.inr (Or.inr (Or.inl rfl)))))
  case h_6 => exact taken_of_sendStep taken (Or.inr (Or.inr (Or.inr (Or.inr (Or.inr rfl)))))
  case h_7 => exact Option.some.inj taken ▸ .disconnect
  case h_8 =>
    split at taken
    case isTrue back => exact Option.some.inj taken ▸ .reuse back.1 back.2
    case isFalse => cases taken
  case h_9 => exact taken_of_loopStep taken

theorem setSender_setSender {call : Fin calls} {phase' : SenderPhase} :
    (s.setSender call phase).setSender call phase' = s.setSender call phase' := by
  simp only [State.setSender, State.mk.injEq, true_and, and_true]
  funext other
  by_cases same : other = call <;> simp only [same, if_true, if_false]

theorem setArray_setSender {call other : Fin calls} {array : Bytes} :
    (s.setSender call phase).setArray other array =
      (s.setArray other array).setSender call phase := rfl

theorem setArray_setArray {call : Fin calls} {array array' : Bytes} :
    (s.setArray call array).setArray call array' = s.setArray call array' := by
  simp only [State.setArray, State.mk.injEq, true_and, and_true]
  funext other
  by_cases same : other = call <;> simp only [same, if_true, if_false]

/-- A call on an open connection comes to have its array. -/
theorem exec_upTo_rent {call : Fin calls} {array : Bytes} (alive : s.isAlive = true)
    (idle : s.sender call = .idle) (large : maxOutboundRequestLength ≤ array.length) :
    exec (step json) s [.test call, .rent call array] =
      some ((s.setArray call array).setSender call .rented) := by
  have tested : step json s (.test call) = some (s.setSender call .tested) := by
    rw [step, idle, sendStep, alive, if_pos rfl]
  rw [exec_cons, tested, Option.bind_some, exec_cons, step, sender_setSender_self, sendStep,
    if_pos large, setArray_setSender, setSender_setSender]
  rfl

/-- If its message fits, it is written to the front of the array. -/
theorem exec_upTo_serialize {call : Fin calls} {array : Bytes} (alive : s.isAlive = true)
    (idle : s.sender call = .idle) (large : maxOutboundRequestLength ≤ array.length)
    (fits : (json call).length + 1 ≤ array.length) :
    exec (step json) s [.test call, .rent call array, .serialize call] =
      some ((s.setArray call (json call ++ [0x0a] ++ array.drop ((json call).length + 1))).setSender
        call (.serialized ((json call).length + 1))) := by
  have serialized : step json ((s.setArray call array).setSender call .rented)
      (.serialize call) = some ((s.setArray call (json call ++ [0x0a] ++
        array.drop ((json call).length + 1))).setSender call
          (.serialized ((json call).length + 1))) := by
    have content : ((s.setArray call array).setSender call .rented).arrays call = array :=
      arrays_setArray_self
    have fitting := serialize_of_fits fits
    rw [step, sender_setSender_self, sendStep, content, fitting]
    dsimp only
    rw [setArray_setSender, setSender_setSender, setArray_setArray]
  refine exec_append_eq_some.mpr ⟨_, exec_upTo_rent alive idle large, ?_⟩
  rw [exec_cons, serialized]
  rfl

/-- A call that nothing interrupts enqueues its message. -/
theorem exec_upTo_enqueue {call : Fin calls} {array : Bytes} (alive : s.isAlive = true)
    (idle : s.sender call = .idle) (large : maxOutboundRequestLength ≤ array.length)
    (fits : (json call).length + 1 ≤ array.length) :
    exec (step json) s [.test call, .rent call array, .serialize call, .enqueue call] =
      some { (s.setArray call (json call ++ [0x0a] ++
          array.drop ((json call).length + 1))).setSender call .enqueued with
        sendQueue := s.sendQueue ++ [⟨call, (json call).length + 1⟩]
        enqueued := s.enqueued ++ [call] } := by
  refine exec_append_eq_some.mpr ⟨_, exec_upTo_serialize alive idle large fits, ?_⟩
  rw [exec_cons, step, sender_setSender_self, sendStep, Option.bind_some, setSender_setSender]
  rfl

end Enabled

end StratumClient

end Hypepool
