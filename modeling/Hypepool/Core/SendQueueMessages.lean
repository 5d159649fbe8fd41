import Hypepool.Base.Framing
import Hypepool.Core.SendQueueOwnership

/-!
# The messages of a connection

While the reading side of a connection has not completed, what the loop thread hands to `QueueWrite`
are the messages of the calls, whole and in the order in which they were enqueued.

* `Intact`: the arrays of the queued segments hold their messages, since nobody else has them.
* `exceeding_call`: a call whose message does not fit throws, and returns its array.
* `empty_of_drain`: a drain that finds the connection usable leaves nothing in the queue.
* `connection_delivers`: all of it, for every run.
-/

namespace Hypepool.StratumClient

open Base

variable {calls : Nat}

/-- What a call sends: the JSON of its payload, and a newline. -/
def message (json : Fin calls → Bytes) (call : Fin calls) : Bytes := json call ++ [0x0a]

/-- The bytes handed to `QueueWrite`. -/
def State.wire (s : State calls) : Bytes := s.handed.flatMap Prod.snd

/-- The drain callback runs, or none does. -/
def LoopPhase.isOpen : LoopPhase calls → Bool
  | .idle | .draining | .writing _ | .written _ _ => true
  | _ => false

/-- The segment that is fetched and not yet handed to `QueueWrite`. -/
def LoopPhase.unwritten : LoopPhase calls → List (Segment calls)
  | .writing segment => [segment]
  | _ => []

/-- The segment that is handed to `QueueWrite` and not yet disposed. -/
def LoopPhase.handedOver : LoopPhase calls → List (Fin calls)
  | .written call _ => [call]
  | _ => []

/-- Up to now the messages are whole, and those to come will be. -/
structure Intact (json : Fin calls → Bytes) (s : State calls) : Prop where
  opened : s.loop.isOpen = true
  token : s.userToken = true
  handed : s.handed.map Prod.fst = s.loopReturns ++ s.loop.handedOver
  contents : ∀ entry ∈ s.handed, entry.2 = message json entry.1
  segments : ∀ segment ∈ s.loop.unwritten ++ s.sendQueue,
    (s.arrays segment.call).take segment.size = message json segment.call
  serialized : ∀ call size, s.sender call = .serialized size →
    (s.arrays call).take size = message json call

section Intact

variable {json : Fin calls → Bytes} {s t : State calls} {call : Fin calls} {phase : SenderPhase}
  {label : Label calls} {schedule : List (Label calls)}

/-- A message is written whole, or serializing throws. -/
theorem serialize_eq_ok {array array' bytes : Bytes} {size : Nat}
    (written : serialize array bytes = .ok (array', size)) :
    array'.take size = bytes ++ [0x0a] ∧ array'.length = array.length ∧
      bytes.length + 1 ≤ array.length := by
  rcases Nat.lt_or_ge array.length (bytes.length + 1) with exceeds | fits
  · rw [serialize_of_exceeds exceeds] at written
    cases written
  · rw [serialize_of_fits fits] at written
    cases written
    refine ⟨?_, ?_, fits⟩
    · exact List.take_left' (by simp)
    · simp only [List.length_append, List.length_singleton, List.length_drop]
      omega

theorem unwritten_subset_held (loop : LoopPhase calls) {segment : Segment calls}
    (member : segment ∈ loop.unwritten) : segment.call ∈ loop.held := by
  cases loop with
  | writing fetched =>
      cases List.mem_singleton.mp member
      exact List.mem_singleton_self _
  | _ => cases member

theorem held_eq {loop : LoopPhase calls} (opened : loop.isOpen = true) :
    loop.held = loop.handedOver ++ loop.unwritten.map Segment.call := by
  cases loop with
  | emptying => cases opened
  | discarding => cases opened
  | closed => cases opened
  | _ => rfl

theorem waiting_of_mem {segment : Segment calls}
    (member : segment ∈ s.loop.unwritten ++ s.sendQueue) :
    segment.call ∈ s.loop.held ++ s.sendQueue.map Segment.call := by
  rcases List.mem_append.mp member with fetched | queued
  · exact List.mem_append_left _ (unwritten_subset_held s.loop fetched)
  · exact List.mem_append_right _ (List.mem_map_of_mem queued)

/-- A call that has not enqueued yet has no segment in the queue. -/
theorem Custody.not_waiting (custody : Custody s) (fresh : (s.sender call).hasEnqueued = false) :
    ∀ segment ∈ s.loop.unwritten ++ s.sendQueue, segment.call ≠ call := by
  intro segment member same
  subst same
  have enqueued : segment.call ∈ s.enqueued := by
    rw [custody.enqueued, List.append_assoc]
    exact List.mem_append_right _ (waiting_of_mem member)
  cases fresh.symm.trans ((custody.enqueuers _).mp enqueued)

/-- A call whose array is back has come past serializing. -/
theorem Custody.not_serialized (custody : Custody s) (back : call ∈ s.returned) (size : Nat) :
    s.sender call ≠ .serialized size := by
  intro phase
  rcases List.mem_append.mp back with byLoop | bySender
  · have enqueued : call ∈ s.enqueued := by
      rw [custody.enqueued, List.append_assoc]
      exact List.mem_append_left _ byLoop
    have passed := (custody.enqueuers call).mp enqueued
    rw [phase] at passed
    cases passed
  · have returned := (custody.returners call).mp bySender
    rw [phase] at returned
    cases returned

theorem Intact.present (intact : Intact json s) (custody : Custody s) :
    s.drainerDisposed = false := by
  have opened := intact.opened
  rw [custody.tornDown]
  cases loop : s.loop with
  | emptying => rw [loop] at opened; cases opened
  | discarding => rw [loop] at opened; cases opened
  | closed => rw [loop] at opened; cases opened
  | _ => rfl

/-- Nobody writes into an array whose message is still to be handed over. -/
theorem Intact.setArray {array : Bytes} (intact : Intact json s)
    (free : ∀ segment ∈ s.loop.unwritten ++ s.sendQueue, segment.call ≠ call)
    (idle : ∀ size, s.sender call ≠ .serialized size) : Intact json (s.setArray call array) where
  opened := intact.opened
  token := intact.token
  handed := intact.handed
  contents := intact.contents
  segments := fun segment member => by
    rw [arrays_setArray_of_ne (free segment member)]
    exact intact.segments segment member
  serialized := fun other size phase => by
    have differs : other ≠ call := by
      intro same
      subst same
      exact idle size phase
    rw [arrays_setArray_of_ne differs]
    exact intact.serialized other size phase

theorem Intact.setSender (intact : Intact json s)
    (whole : ∀ size, phase = .serialized size → (s.arrays call).take size = message json call) :
    Intact json (s.setSender call phase) where
  opened := intact.opened
  token := intact.token
  handed := intact.handed
  contents := intact.contents
  segments := intact.segments
  serialized := fun other size here => by
    by_cases same : other = call
    · rw [same, sender_setSender_self] at here
      exact same ▸ whole size here
    · rw [sender_setSender_of_ne same] at here
      exact intact.serialized other size here

/-- A call enqueues the segment it has serialized. -/
theorem Intact.enqueue {size : Nat} (intact : Intact json s)
    (here : s.sender call = .serialized size) :
    Intact json { s.setSender call .enqueued with
      sendQueue := s.sendQueue ++ [⟨call, size⟩]
      enqueued := s.enqueued ++ [call] } := by
  have moved : Intact json (s.setSender call .enqueued) :=
    intact.setSender fun _ phase => nomatch phase
  refine ⟨moved.opened, moved.token, moved.handed, moved.contents, ?_, moved.serialized⟩
  intro segment member
  dsimp only at member
  rw [← List.append_assoc] at member
  rcases List.mem_append.mp member with earlier | last
  · exact moved.segments segment earlier
  · cases List.mem_singleton.mp last
    exact intact.serialized call size here

/-- A call returns its array itself. -/
theorem Intact.giveBack (intact : Intact json s) (unserialized : ∀ size, phase ≠ .serialized size) :
    Intact json { s.setSender call phase with senderReturns := s.senderReturns ++ [call] } := by
  have moved : Intact json (s.setSender call phase) :=
    intact.setSender fun size same => (unserialized size same).elim
  exact ⟨moved.opened, moved.token, moved.handed, moved.contents, moved.segments, moved.serialized⟩

/-- The loop hands the fetched segment to `QueueWrite`. -/
theorem Intact.queueWrite {segment : Segment calls} {throws : Bool} (intact : Intact json s)
    (here : s.loop = .writing segment) :
    Intact json { s with
      loop := .written segment.call throws
      handed := s.handed ++ [(segment.call, (s.arrays segment.call).take segment.size)] } := by
  have handed := intact.handed
  have segments := intact.segments
  rw [here] at handed segments
  have whole := segments segment (List.mem_append_left _ (List.mem_singleton_self _))
  refine ⟨rfl, intact.token, ?_, ?_, ?_, intact.serialized⟩
  · rw [List.map_append, handed]
    simp [LoopPhase.handedOver]
  · intro entry member
    rcases List.mem_append.mp member with earlier | last
    · exact intact.contents entry earlier
    · cases List.mem_singleton.mp last
      exact whole
  · exact fun other member => segments other (List.mem_append_right _ member)

/-- The loop moves on: what was handed over is in order, and nothing new is to be. -/
theorem Intact.proceed (intact : Intact json s) {loop : LoopPhase calls}
    {queue : List (Segment calls)} {returns : List (Fin calls)} (opened : loop.isOpen = true)
    (handed : returns ++ loop.handedOver = s.loopReturns ++ s.loop.handedOver)
    (segments : ∀ segment ∈ loop.unwritten ++ queue, segment ∈ s.loop.unwritten ++ s.sendQueue) :
    Intact json { s with loop := loop, sendQueue := queue, loopReturns := returns } where
  opened := opened
  token := intact.token
  handed := intact.handed.trans handed.symm
  contents := intact.contents
  segments := fun segment member => intact.segments segment (segments segment member)
  serialized := intact.serialized

theorem Intact.initial : Intact json ({} : State calls) :=
  ⟨rfl, rfl, rfl, fun _ member => (nomatch member), fun _ member => (nomatch member),
    fun _ _ phase => (nomatch phase)⟩

theorem Intact.step (custody : Custody s) (intact : Intact json s) (proceeds : label ≠ .complete)
    (taken : Taken json s label t) : Intact json t := by
  have opened := intact.opened
  cases taken with
  | test here =>
      cases s.isAlive with
      | false => exact intact.setSender fun _ phase => nomatch phase
      | true => exact intact.setSender fun _ phase => nomatch phase
  | @rent call array here large =>
      have kept : Intact json (s.setArray call array) :=
        intact.setArray (custody.not_waiting (here ▸ rfl)) fun size phase =>
          nomatch here.symm.trans phase
      exact kept.setSender fun _ phase => nomatch phase
  | @serialize call array size here fits =>
      have kept : Intact json (s.setArray call array) :=
        intact.setArray (custody.not_waiting (here ▸ rfl)) fun size phase =>
          nomatch here.symm.trans phase
      refine kept.setSender fun size' phase => ?_
      cases phase
      rw [arrays_setArray_self]
      exact (serialize_eq_ok fits).1
  | exceed here => exact intact.setSender fun _ phase => nomatch phase
  | enqueue here => exact intact.enqueue here
  | signal here =>
      cases s.drainerDisposed with
      | false => exact intact.setSender fun _ phase => nomatch phase
      | true => exact intact.setSender fun _ phase => nomatch phase
  | giveBackFailed here => exact intact.giveBack nofun
  | giveBackRefused here => exact intact.giveBack nofun
  | @drain usable here present =>
      cases drains : s.userToken && usable with
      | false => exact intact.proceed rfl (by rw [here]; rfl) fun _ member => here ▸ member
      | true => exact intact.proceed rfl (by rw [here]; rfl) fun _ member => here ▸ member
  | drained here empty => exact intact.proceed rfl (by rw [here]; rfl) fun _ member => here ▸ member
  | dequeue here queue =>
      apply intact.proceed rfl (by rw [here]; rfl)
      intro segment member
      rw [here, queue]
      exact member
  | queueWrite here => exact intact.queueWrite here
  | @dispose call thrown here =>
      cases thrown with
      | false =>
          refine intact.proceed rfl ?_ fun _ member => ?_
          · rw [here]
            exact List.append_nil _
          · rw [here]
            exact member
      | true =>
          refine intact.proceed rfl ?_ fun _ member => ?_
          · rw [here]
            exact List.append_nil _
          · rw [here]
            exact member
  | complete => exact (proceeds rfl).elim
  | clearToken here => rw [here] at opened; cases opened
  | disposeDrainer here => rw [here] at opened; cases opened
  | emptied here => rw [here] at opened; cases opened
  | discard here => rw [here] at opened; cases opened
  | disposeDiscarded here => rw [here] at opened; cases opened
  | disconnect =>
      exact ⟨intact.opened, intact.token, intact.handed, intact.contents, intact.segments,
        intact.serialized⟩
  | @reuse call array back length =>
      refine intact.setArray ?_ (custody.not_serialized back)
      intro segment member same
      subst same
      exact custody.not_returned (intact.present custody) (waiting_of_mem member) back

theorem intact_run (proceeds : .complete ∉ schedule)
    (run : exec (step json) {} schedule = some t) : Custody t ∧ Intact json t := by
  have guarded : Guarded (step json) (fun _ label => label ≠ .complete) {} schedule := by
    apply guarded_of_forall
    intro _ label member same
    subst same
    exact proceeds member
  exact exec_invariant_of_guarded (fun w => Custody w ∧ Intact json w)
    (fun _ _ _ both proceeds taken =>
      ⟨both.1.step (step_cases taken), both.2.step both.1 proceeds (step_cases taken)⟩)
    ⟨Custody.initial, Intact.initial⟩ guarded run

/-- What was handed over are the first messages that were enqueued, in this order. -/
theorem Intact.handed_eq (custody : Custody s) (intact : Intact json s) :
    ∃ k, s.handed = (s.enqueued.take k).map fun call => (call, message json call) := by
  refine ⟨(s.loopReturns ++ s.loop.handedOver).length, ?_⟩
  have front : s.enqueued.take (s.loopReturns ++ s.loop.handedOver).length =
      s.handed.map Prod.fst := by
    rw [custody.enqueued, held_eq intact.opened, intact.handed, ← List.append_assoc,
      List.append_assoc]
    exact List.take_left
  rw [front, List.map_map]
  refine (List.map_id s.handed).symm.trans (List.map_congr_left fun entry member => ?_)
  exact Prod.ext rfl (intact.contents entry member)

theorem Intact.handed_nodup (custody : Custody s) (intact : Intact json s) :
    (s.handed.map Prod.fst).Nodup := by
  rcases intact.handed_eq custody with ⟨k, handed⟩
  have calls : s.handed.map Prod.fst = s.enqueued.take k := by
    rw [handed, List.map_map]
    exact List.map_id _
  exact calls ▸ custody.once.sublist (List.take_sublist k s.enqueued)

/-- A receiver that splits the bytes at newlines gets the payloads back. -/
theorem Intact.framed (free : ∀ call, 0x0a ∉ json call) (intact : Intact json s) :
    terminated 0x0a s.wire = s.handed.map (fun entry => json entry.1) ∧
      remainder 0x0a s.wire = [] := by
  have shape : s.wire = (s.handed.map fun entry => json entry.1).flatMap (· ++ [0x0a]) ++ [] := by
    rw [State.wire, List.append_nil, List.flatMap_map]
    exact List.flatMap_congr fun entry member => intact.contents entry member
  rw [shape]
  apply framing_unique
  · intro record member
    rcases List.mem_map.mp member with ⟨entry, _, rfl⟩
    exact free entry.1
  · exact List.not_mem_nil

end Intact

/-! ## Messages that do not fit -/

/-- The call has written its message into its array. -/
def SenderPhase.hasSerialized : SenderPhase → Bool
  | .serialized _ | .enqueued | .sent | .refused | .released => true
  | _ => false

/-- Only a message that fits its array gets past serializing. -/
def Fitting (json : Fin calls → Bytes) (s : State calls) : Prop :=
  ∀ call, (s.sender call).hasSerialized = true → (json call).length + 1 ≤ (s.arrays call).length

section Fitting

variable {json : Fin calls → Bytes} {s t : State calls} {call : Fin calls} {phase : SenderPhase}
  {label : Label calls} {schedule : List (Label calls)}

theorem Fitting.setSender {old : SenderPhase} (fitting : Fitting json s)
    (here : s.sender call = old) (same : phase.hasSerialized = old.hasSerialized) :
    Fitting json (s.setSender call phase) := by
  intro other passed
  by_cases equal : other = call
  · rw [equal, sender_setSender_self, same, ← here] at passed
    exact equal ▸ fitting call passed
  · rw [sender_setSender_of_ne equal] at passed
    exact fitting other passed

theorem Fitting.setArray {array : Bytes} (fitting : Fitting json s)
    (fits : (s.sender call).hasSerialized = true → (json call).length + 1 ≤ array.length) :
    Fitting json (s.setArray call array) := by
  intro other passed
  by_cases equal : other = call
  · cases equal
    rw [arrays_setArray_self]
    exact fits passed
  · rw [arrays_setArray_of_ne equal]
    exact fitting other passed

theorem Fitting.step (fitting : Fitting json s) (taken : Taken json s label t) :
    Fitting json t := by
  cases taken with
  | test here =>
      cases s.isAlive with
      | false => exact fitting.setSender here rfl
      | true => exact fitting.setSender here rfl
  | @rent call array here large =>
      have written : Fitting json (s.setArray call array) := fitting.setArray fun passed => by
        rw [here] at passed
        cases passed
      exact written.setSender here rfl
  | @serialize call array size here fits =>
      rcases serialize_eq_ok fits with ⟨_, length, room⟩
      intro other passed
      by_cases equal : other = call
      · rw [equal, arrays_setSender, arrays_setArray_self, length]
        exact room
      · rw [sender_setSender_of_ne equal] at passed
        rw [arrays_setSender, arrays_setArray_of_ne equal]
        exact fitting other passed
  | exceed here => exact fitting.setSender here rfl
  | enqueue here => exact fitting.setSender here rfl
  | signal here =>
      cases s.drainerDisposed with
      | false => exact fitting.setSender here rfl
      | true => exact fitting.setSender here rfl
  | giveBackFailed here => exact fitting.setSender here rfl
  | giveBackRefused here => exact fitting.setSender here rfl
  | @reuse call array back length =>
      exact fitting.setArray fun passed => length ▸ fitting call passed
  | _ => exact fitting

theorem fitting_run (run : exec (step json) {} schedule = some t) : Fitting json t :=
  exec_invariant (Fitting json) (fun _ _ _ fitting taken => fitting.step (step_cases taken))
    (fun _ passed => Bool.noConfusion passed) run

theorem hasSerialized_of_hasEnqueued (enqueued : phase.hasEnqueued = true) :
    phase.hasSerialized = true := by
  cases phase with
  | enqueued => rfl
  | sent => rfl
  | refused => rfl
  | released => rfl
  | _ => cases enqueued

theorem eq_thrown_of_hasReturned (returned : phase.hasReturned = true)
    (early : phase.hasSerialized = false) : phase = .thrown := by
  cases phase with
  | thrown => rfl
  | released => cases early
  | _ => cases returned

/-- A call whose message does not fit throws in its next steps, and returns its array. -/
theorem exec_exceeding (exceeds : (s.arrays call).length < (json call).length + 1)
    (here : s.sender call = .rented) :
    exec (step json) s [.serialize call, .giveBack call] =
      some { s.setSender call .thrown with senderReturns := s.senderReturns ++ [call] } := by
  have failed : step json s (.serialize call) = some (s.setSender call .failed) := by
    rw [step, here, sendStep, serialize_of_exceeds exceeds]
  rw [exec_cons, failed, Option.bind_some, exec_cons, step, sender_setSender_self, sendStep,
    setSender_setSender]
  rfl

/-- It never enqueues anything, and its array is back exactly if it has thrown. -/
theorem exceeding_call (custody : Custody s) (fitting : Fitting json s)
    (exceeds : (s.arrays call).length < (json call).length + 1) :
    call ∉ s.enqueued ∧ s.returned.count call = (if s.sender call = .thrown then 1 else 0) ∧
      s.sender call ∈ [.idle, .skipped, .tested, .rented, .failed, .thrown] := by
  have early : (s.sender call).hasSerialized = false := by
    rw [Bool.eq_false_iff]
    exact fun passed => absurd (fitting call passed) (Nat.not_le_of_lt exceeds)
  have absent : call ∉ s.enqueued := by
    rw [custody.enqueuers]
    intro enqueued
    cases early.symm.trans (hasSerialized_of_hasEnqueued enqueued)
  have never : s.loopReturns.count call = 0 := by
    apply List.count_eq_zero_of_not_mem
    intro byLoop
    apply absent
    rw [custody.enqueued, List.append_assoc]
    exact List.mem_append_left _ byLoop
  have bySender : s.senderReturns.count call = if s.sender call = .thrown then 1 else 0 := by
    split
    case isTrue thrown =>
      have returned : call ∈ s.senderReturns := (custody.returners call).mpr (thrown ▸ rfl)
      exact List.count_eq_one_of_mem custody.returnedOnce returned
    case isFalse pending =>
      apply List.count_eq_zero_of_not_mem
      rw [custody.returners]
      exact fun returned => pending (eq_thrown_of_hasReturned returned early)
  refine ⟨absent, ?_, ?_⟩
  · rw [State.returned, List.count_append, never, bySender, Nat.zero_add]
  · cases phase : s.sender call <;> rw [phase] at early <;> first | decide | cases early

end Fitting

/-! ## Drains that complete -/

/-- A drain goes on, or has left the queue empty. -/
def Draining (s : State calls) : Prop :=
  match s.loop with
  | .idle => s.sendQueue = []
  | .draining | .writing _ | .written _ false => True
  | _ => False

section Draining

variable {json : Fin calls → Bytes} {s t : State calls} {label : Label calls}
  {schedule : List (Label calls)}

/-- Steps that enqueue nothing, end no drain early and do not complete the connection. -/
def Label.isCalm : Label calls → Bool
  | .enqueue _ | .queueWrite true | .complete => false
  | _ => true

theorem Draining.step (draining : Draining s) (calm : label.isCalm = true)
    (taken : Taken json s label t) : Draining t := by
  have now : Draining s := draining
  unfold Draining at now
  cases taken with
  | enqueue => cases calm
  | complete => cases calm
  | @drain usable here present =>
      rw [here] at now
      unfold Draining
      dsimp only
      cases s.userToken && usable with
      | false => exact now
      | true => trivial
  | drained here empty => exact empty
  | dequeue here queue => trivial
  | @queueWrite segment throws here =>
      cases throws with
      | false => trivial
      | true => cases calm
  | @dispose call thrown here =>
      cases thrown with
      | false => trivial
      | true => rw [here] at now; exact now.elim
  | clearToken here => rw [here] at now; exact now.elim
  | disposeDrainer here => rw [here] at now; exact now.elim
  | emptied here => rw [here] at now; exact now.elim
  | discard here => rw [here] at now; exact now.elim
  | disposeDiscarded here => rw [here] at now; exact now.elim
  | _ => exact draining

/-- A drain that finds the connection usable leaves nothing behind of what was enqueued before. -/
theorem empty_of_drain {before after : List (Label calls)} (proceeds : .complete ∉ before)
    (calm : ∀ label ∈ after, label.isCalm = true) (settled : t.loop = .idle)
    (run : exec (step json) {} (before ++ .drain true :: after) = some t) : t.sendQueue = [] := by
  rcases exec_append_eq_some.mp run with ⟨u, front, rest⟩
  rcases exec_cons_eq_some.mp rest with ⟨v, drains, rest⟩
  have starts : Draining v := by
    cases step_cases drains with
    | drain here present =>
        unfold Draining
        dsimp only
        rw [(intact_run proceeds front).2.token]
        trivial
  have guarded : Guarded (step json) (fun _ label => label.isCalm = true) v after :=
    guarded_of_forall fun _ => calm
  have final := exec_invariant_of_guarded Draining
    (fun _ _ _ draining calm taken => draining.step calm (step_cases taken)) starts guarded rest
  unfold Draining at final
  rw [settled] at final
  exact final

end Draining

/-- **What a connection sends.**  In every run in which the reading side does not complete: what is
handed to `QueueWrite` are the messages of the calls enqueued first, in their order, each whole and
each once; a call whose message does not fit its array enqueues nothing, throws, and returns the
array once; and when a drain that finds the connection usable has run after the last `Enqueue`, and
no `QueueWrite` in it threw, every enqueued message was handed over. -/
theorem connection_delivers (json : Fin calls → Bytes) (free : ∀ call, 0x0a ∉ json call)
    {schedule : List (Label calls)} (proceeds : .complete ∉ schedule) {t : State calls}
    (run : exec (step json) {} schedule = some t) :
    (∃ k, t.handed = (t.enqueued.take k).map (fun call => (call, message json call)) ∧
      t.wire = (t.enqueued.take k).flatMap (message json)) ∧
    (terminated 0x0a t.wire = t.handed.map (fun entry => json entry.1) ∧
      remainder 0x0a t.wire = []) ∧
    (t.handed.map Prod.fst).Nodup ∧
    (∀ call, (t.arrays call).length < (json call).length + 1 →
      call ∉ t.enqueued ∧ t.returned.count call = (if t.sender call = .thrown then 1 else 0) ∧
      t.sender call ∈ [.idle, .skipped, .tested, .rented, .failed, .thrown] ∧
      (t.sender call = .rented → exec (step json) t [.serialize call, .giveBack call] =
        some { t.setSender call .thrown with senderReturns := t.senderReturns ++ [call] })) ∧
    (∀ before after, schedule = before ++ .drain true :: after →
      (∀ call, .enqueue call ∉ after) → .queueWrite true ∉ after → t.loop = .idle →
      t.handed.map Prod.fst = t.enqueued) := by
  rcases intact_run proceeds run with ⟨custody, intact⟩
  refine ⟨?_, intact.framed free, intact.handed_nodup custody, ?_, ?_⟩
  · rcases intact.handed_eq custody with ⟨k, handed⟩
    refine ⟨k, handed, ?_⟩
    rw [State.wire, handed, List.flatMap_map]
  · intro call exceeds
    rcases exceeding_call custody (fitting_run run) exceeds with ⟨absent, returned, phases⟩
    exact ⟨absent, returned, phases, exec_exceeding exceeds⟩
  · intro before after same noEnqueue noThrow settled
    subst same
    have calm : ∀ label ∈ after, label.isCalm = true := by
      intro label member
      cases label with
      | enqueue call => exact (noEnqueue call member).elim
      | queueWrite throws =>
          cases throws with
          | false => rfl
          | true => exact (noThrow member).elim
      | complete =>
          exact (proceeds (List.mem_append_right _ (List.mem_cons_of_mem _ member))).elim
      | _ => rfl
    have before' : .complete ∉ before := fun member => proceeds (List.mem_append_left _ member)
    have empty := empty_of_drain before' calm settled run
    rw [intact.handed, custody.enqueued, empty, settled]
    simp [LoopPhase.handedOver, LoopPhase.held]

/-- The payloads `{}` and `[]`, and a string that is longer than its array. -/
def sampleJsons : Fin 3 → Bytes
  | 0 => [0x7b, 0x7d]
  | 1 => [0x5b, 0x5d]
  | 2 => List.replicate (maxOutboundRequestLength + 2) 0x22

theorem sampleJsons_free (call : Fin 3) : 0x0a ∉ sampleJsons call := by
  match call with
  | 0 => decide
  | 1 => decide
  | 2 => exact fun newline => absurd (List.eq_of_mem_replicate newline) (by decide)

/-- Three calls have their arrays; two have written their messages, and the third has thrown. -/
def sampleWritten (arrays : Fin 3 → Bytes) : State 3 where
  arrays := arrays
  sender := fun | 0 => .serialized 3 | 1 => .serialized 3 | 2 => .thrown
  senderReturns := [2]

theorem exec_sampleWritten :
    ∃ arrays : Fin 3 → Bytes, (arrays 2).length = maxOutboundRequestLength ∧
      exec (step sampleJsons) {} [.test 0, .rent 0 sampleArray, .serialize 0, .test 1,
        .rent 1 sampleArray, .serialize 1, .test 2, .rent 2 sampleArray, .serialize 2,
        .giveBack 2] = some (sampleWritten arrays) := by
  have large : maxOutboundRequestLength ≤ sampleArray.length := Nat.le_of_eq sampleArray_length.symm
  have fits (call : Fin 3) (short : (sampleJsons call).length = 2) :
      (sampleJsons call).length + 1 ≤ sampleArray.length := by
    rw [sampleArray_length, short]
    decide
  have exceeds (s : State 3) : (((s.setArray 2 sampleArray).setSender 2 .rented).arrays 2).length <
      (sampleJsons 2).length + 1 := by
    rw [arrays_setSender, arrays_setArray_self, sampleArray_length, sampleJsons,
      List.length_replicate]
    omega
  obtain ⟨s, run, senders, array, same⟩ : ∃ s, exec (step sampleJsons) {} _ = some s ∧
      (s.sender = fun | 0 => .serialized 3 | 1 => .serialized 3 | 2 => .thrown) ∧
      s.arrays 2 = sampleArray ∧ s = { sampleWritten s.arrays with sender := s.sender } := by
    refine ⟨_, exec_append_eq_some.mpr ⟨_, exec_upTo_serialize rfl rfl large (fits 0 rfl),
      exec_append_eq_some.mpr ⟨_, exec_upTo_serialize rfl rfl large (fits 1 rfl),
        exec_append_eq_some.mpr ⟨_, exec_upTo_rent rfl rfl large, exec_exceeding (exceeds _) rfl⟩⟩⟩,
      ?_, rfl, rfl⟩
    funext call
    match call with
    | 0 => rfl
    | 1 => rfl
    | 2 => rfl
  rw [senders] at same
  exact ⟨s.arrays, array ▸ sampleArray_length, run.trans (congrArg some same)⟩

/-- Two messages are handed over in the order in which they were enqueued; the call whose message
does not fit its array has thrown and returned it. -/
theorem connection_delivers_sample :
    ∃ t, exec (step sampleJsons) {} [.test 0, .rent 0 sampleArray, .serialize 0, .test 1,
        .rent 1 sampleArray, .serialize 1, .test 2, .rent 2 sampleArray, .serialize 2,
        .giveBack 2, .enqueue 1, .enqueue 0, .signal 0, .drain true, .dequeue, .queueWrite false,
        .dispose, .dequeue, .queueWrite false, .dispose, .dequeue, .signal 1] = some t ∧
      t.handed.map Prod.fst = [1, 0] ∧
      terminated 0x0a t.wire = [[0x5b, 0x5d], [0x7b, 0x7d]] ∧
      2 ∉ t.enqueued ∧ t.returned.count 2 = 1 := by
  rcases exec_sampleWritten with ⟨arrays, length, front⟩
  obtain ⟨t, back, idle, enqueued, kept, thrown⟩ : ∃ t, exec (step sampleJsons)
      (sampleWritten arrays) [.enqueue 1, .enqueue 0, .signal 0, .drain true, .dequeue,
        .queueWrite false, .dispose, .dequeue, .queueWrite false, .dispose, .dequeue, .signal 1] =
      some t ∧ t.loop = .idle ∧ t.enqueued = [1, 0] ∧ t.arrays = arrays ∧ t.sender 2 = .thrown :=
    ⟨_, rfl, rfl, rfl, rfl, rfl⟩
  have run := exec_append_eq_some.mpr ⟨_, front, back⟩
  rcases connection_delivers sampleJsons sampleJsons_free (by simp) run with
    ⟨_, ⟨framed, _⟩, _, exceeding, drained⟩
  have exceeds : (t.arrays 2).length < (sampleJsons 2).length + 1 := by
    rw [kept, length, sampleJsons, List.length_replicate]
    omega
  rcases exceeding 2 exceeds with ⟨absent, returned, _, _⟩
  have handed := drained
    [.test 0, .rent 0 sampleArray, .serialize 0, .test 1, .rent 1 sampleArray, .serialize 1,
      .test 2, .rent 2 sampleArray, .serialize 2, .giveBack 2, .enqueue 1, .enqueue 0, .signal 0]
    [.dequeue, .queueWrite false, .dispose, .dequeue, .queueWrite false, .dispose, .dequeue,
      .signal 1] rfl (by simp) (by simp) idle
  rw [enqueued] at handed
  rw [thrown, if_pos rfl] at returned
  refine ⟨t, run, handed, ?_, absent, returned⟩
  calc terminated 0x0a t.wire = (t.handed.map Prod.fst).map sampleJsons := by
        rw [framed, List.map_map]
        rfl
    _ = [[0x5b, 0x5d], [0x7b, 0x7d]] := by
        rw [handed]
        rfl

end Hypepool.StratumClient
