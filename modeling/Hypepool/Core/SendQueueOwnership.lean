import Mathlib.Data.List.Nodup
import Hypepool.Core.StratumClientSend

/-!
# Who owns an outbound array

A queued segment is a copy of the sender's: either of them can be disposed.  `Custody` accounts for
all of them in every reachable state: the segments ever enqueued are, in this order, those the loop
thread has disposed, the one it holds and those in the queue, and a call returns its array itself
only where serializing has thrown or the drainer has refused to be woken up.

* `not_returned_of_writing`: an array is written to the socket before anybody returns it.
* `oneOwner_run_iff`: a returned array is returned once, as long as the drainer is not disposed
  between `Enqueue` and `_sendQueueDrainer.Send()` of a call, and no segment is enqueued while the
  completed handler empties the queue; and only then.
* `array_returned_twice`: a run in which it is disposed in between.
-/

namespace Hypepool.StratumClient

open Base

variable {calls : Nat}

/-- The call's segment is in the queue, or was. -/
def SenderPhase.hasEnqueued : SenderPhase → Bool
  | .enqueued | .sent | .refused | .released => true
  | _ => false

/-- The call has returned the array itself. -/
def SenderPhase.hasReturned : SenderPhase → Bool
  | .thrown | .released => true
  | _ => false

/-- The drainer has thrown `ObjectDisposedException` at the call. -/
def SenderPhase.wasRefused : SenderPhase → Bool
  | .refused | .released => true
  | _ => false

/-- The array the loop thread is going to dispose. -/
def LoopPhase.held : LoopPhase calls → List (Fin calls)
  | .writing segment => [segment.call]
  | .written call _ | .discarding call => [call]
  | _ => []

/-- The drainer is disposed. -/
def LoopPhase.isTornDown : LoopPhase calls → Bool
  | .emptying | .discarding _ | .closed => true
  | _ => false

/-- The completed handler is emptying the queue. -/
def LoopPhase.isEmptying : LoopPhase calls → Bool
  | .emptying | .discarding _ => true
  | _ => false

/-- Where every enqueued segment and every returned array is. -/
structure Custody (s : State calls) : Prop where
  enqueued : s.enqueued = s.loopReturns ++ s.loop.held ++ s.sendQueue.map Segment.call
  once : s.enqueued.Nodup
  enqueuers : ∀ call, call ∈ s.enqueued ↔ (s.sender call).hasEnqueued = true
  returnedOnce : s.senderReturns.Nodup
  returners : ∀ call, call ∈ s.senderReturns ↔ (s.sender call).hasReturned = true
  tornDown : s.drainerDisposed = s.loop.isTornDown
  refused : ∀ call, (s.sender call).wasRefused = true → s.drainerDisposed = true

section Custody

variable {json : Fin calls → Bytes} {s t : State calls} {call : Fin calls} {phase : SenderPhase}
  {label : Label calls}

/-- A list of the calls in marked phases, when a call moves on to a phase with the same mark. -/
theorem mem_iff_setSender_of_eq {mark : SenderPhase → Bool} {marked : List (Fin calls)}
    (agrees : ∀ c, c ∈ marked ↔ mark (s.sender c) = true)
    (same : mark phase = mark (s.sender call)) (c : Fin calls) :
    c ∈ marked ↔ mark ((s.setSender call phase).sender c) = true := by
  by_cases here : c = call
  · rw [here, sender_setSender_self, same]
    exact agrees call
  · rw [sender_setSender_of_ne here]
    exact agrees c

/-- The same when the call moves on to a marked phase. -/
theorem mem_append_iff_setSender {mark : SenderPhase → Bool} {marked : List (Fin calls)}
    (agrees : ∀ c, c ∈ marked ↔ mark (s.sender c) = true) (moved : mark phase = true)
    (c : Fin calls) : c ∈ marked ++ [call] ↔ mark ((s.setSender call phase).sender c) = true := by
  rw [List.mem_append, List.mem_singleton]
  by_cases here : c = call
  · rw [here, sender_setSender_self]
    exact iff_of_true (Or.inr rfl) moved
  · rw [sender_setSender_of_ne here, or_iff_left here]
    exact agrees c

theorem nodup_append_setSender {mark : SenderPhase → Bool} {marked : List (Fin calls)}
    (agrees : ∀ c, c ∈ marked ↔ mark (s.sender c) = true) (once : marked.Nodup)
    (unmarked : mark (s.sender call) = false) : (marked ++ [call]).Nodup := by
  have fresh : call ∉ marked := fun member =>
    nomatch unmarked.symm.trans ((agrees call).mp member)
  rw [List.nodup_append_comm]
  exact List.nodup_cons.mpr ⟨fresh, once⟩

theorem refused_setSender (custody : Custody s)
    (refused : phase.wasRefused = true → s.drainerDisposed = true) (c : Fin calls)
    (was : ((s.setSender call phase).sender c).wasRefused = true) : s.drainerDisposed = true := by
  by_cases here : c = call
  · rw [here, sender_setSender_self] at was
    exact refused was
  · rw [sender_setSender_of_ne here] at was
    exact custody.refused c was

theorem Custody.setSender {old : SenderPhase} (custody : Custody s) (here : s.sender call = old)
    (enqueued : phase.hasEnqueued = old.hasEnqueued)
    (returned : phase.hasReturned = old.hasReturned)
    (refused : phase.wasRefused = true → s.drainerDisposed = true) :
    Custody (s.setSender call phase) where
  enqueued := custody.enqueued
  once := custody.once
  enqueuers := mem_iff_setSender_of_eq custody.enqueuers (here ▸ enqueued)
  returnedOnce := custody.returnedOnce
  returners := mem_iff_setSender_of_eq custody.returners (here ▸ returned)
  tornDown := custody.tornDown
  refused := refused_setSender custody refused

theorem Custody.setArray {array : Bytes} (custody : Custody s) :
    Custody (s.setArray call array) :=
  ⟨custody.enqueued, custody.once, custody.enqueuers, custody.returnedOnce, custody.returners,
    custody.tornDown, custody.refused⟩

/-- A call enqueues its segment, for the first time. -/
theorem Custody.enqueue {size : Nat} (custody : Custody s)
    (here : s.sender call = .serialized size) :
    Custody { s.setSender call .enqueued with
      sendQueue := s.sendQueue ++ [⟨call, size⟩]
      enqueued := s.enqueued ++ [call] } where
  enqueued := by
    rw [List.map_append, List.map_singleton, ← List.append_assoc, custody.enqueued]
    rfl
  once := nodup_append_setSender custody.enqueuers custody.once (here ▸ rfl)
  enqueuers := mem_append_iff_setSender custody.enqueuers rfl
  returnedOnce := custody.returnedOnce
  returners := mem_iff_setSender_of_eq custody.returners (here ▸ rfl)
  tornDown := custody.tornDown
  refused := refused_setSender custody fun was => nomatch was

/-- A call returns its array itself, for the first time. -/
theorem Custody.giveBack {old : SenderPhase} (custody : Custody s) (here : s.sender call = old)
    (enqueued : phase.hasEnqueued = old.hasEnqueued) (before : old.hasReturned = false)
    (after : phase.hasReturned = true)
    (refused : phase.wasRefused = true → s.drainerDisposed = true) :
    Custody { s.setSender call phase with senderReturns := s.senderReturns ++ [call] } where
  enqueued := custody.enqueued
  once := custody.once
  enqueuers := mem_iff_setSender_of_eq custody.enqueuers (here ▸ enqueued)
  returnedOnce := nodup_append_setSender custody.returners custody.returnedOnce (here ▸ before)
  returners := mem_append_iff_setSender custody.returners after
  tornDown := custody.tornDown
  refused := refused_setSender custody refused

/-- The loop thread passes the front segment on. -/
theorem Custody.move (custody : Custody s) (sender : t.sender = s.sender)
    (enqueued : t.enqueued = s.enqueued) (returns : t.senderReturns = s.senderReturns)
    (places : t.loopReturns ++ t.loop.held ++ t.sendQueue.map Segment.call =
      s.loopReturns ++ s.loop.held ++ s.sendQueue.map Segment.call)
    (tornDown : t.drainerDisposed = t.loop.isTornDown)
    (disposed : s.drainerDisposed = true → t.drainerDisposed = true) : Custody t where
  enqueued := by rw [enqueued, places, custody.enqueued]
  once := enqueued ▸ custody.once
  enqueuers := by
    rw [enqueued, sender]
    exact custody.enqueuers
  returnedOnce := returns ▸ custody.returnedOnce
  returners := by
    rw [returns, sender]
    exact custody.returners
  tornDown := tornDown
  refused := fun c was => disposed (custody.refused c (sender ▸ was))

theorem Custody.initial : Custody ({} : State calls) :=
  ⟨rfl, List.nodup_nil, fun _ => iff_of_false List.not_mem_nil Bool.false_ne_true, List.nodup_nil,
    fun _ => iff_of_false List.not_mem_nil Bool.false_ne_true, rfl, fun _ was => (nomatch was)⟩

theorem Custody.step (custody : Custody s) (taken : Taken json s label t) : Custody t := by
  have tornDown := custody.tornDown
  cases taken with
  | test here =>
      cases s.isAlive with
      | false => exact custody.setSender here rfl rfl fun was => nomatch was
      | true => exact custody.setSender here rfl rfl fun was => nomatch was
  | rent here => exact custody.setArray.setSender here rfl rfl fun was => nomatch was
  | serialize here => exact custody.setArray.setSender here rfl rfl fun was => nomatch was
  | exceed here => exact custody.setSender here rfl rfl fun was => nomatch was
  | enqueue here => exact custody.enqueue here
  | signal here =>
      cases disposed : s.drainerDisposed with
      | false => exact custody.setSender here rfl rfl fun was => nomatch was
      | true => exact custody.setSender here rfl rfl fun _ => disposed
  | giveBackFailed here => exact custody.giveBack here rfl rfl rfl fun was => nomatch was
  | @giveBackRefused call here =>
      exact custody.giveBack here rfl rfl rfl fun _ => custody.refused call (here ▸ rfl)
  | drain here present =>
      refine custody.move rfl rfl rfl ?_ ?_ id
      · rw [here]
        dsimp only
        split <;> rfl
      · rw [present]
        dsimp only
        split <;> rfl
  | drained here empty =>
      rw [here] at tornDown
      exact custody.move rfl rfl rfl (by rw [here]; rfl) tornDown id
  | dequeue here queue =>
      rw [here] at tornDown
      refine custody.move rfl rfl rfl ?_ tornDown id
      rw [here, queue]
      simp [LoopPhase.held]
  | queueWrite here =>
      rw [here] at tornDown
      exact custody.move rfl rfl rfl (by rw [here]; rfl) tornDown id
  | @dispose call thrown here =>
      rw [here] at tornDown
      cases thrown with
      | false => exact custody.move rfl rfl rfl (by rw [here]; simp [LoopPhase.held]) tornDown id
      | true => exact custody.move rfl rfl rfl (by rw [here]; simp [LoopPhase.held]) tornDown id
  | complete here =>
      rw [here] at tornDown
      exact custody.move rfl rfl rfl (by rw [here]; rfl) tornDown id
  | clearToken here =>
      rw [here] at tornDown
      exact custody.move rfl rfl rfl (by rw [here]; rfl) tornDown id
  | disposeDrainer here =>
      exact custody.move rfl rfl rfl (by rw [here]; rfl) rfl fun _ => rfl
  | emptied here empty =>
      rw [here] at tornDown
      exact custody.move rfl rfl rfl (by rw [here]; rfl) tornDown id
  | discard here queue =>
      rw [here] at tornDown
      refine custody.move rfl rfl rfl ?_ tornDown id
      rw [here, queue]
      simp [LoopPhase.held]
  | disposeDiscarded here =>
      rw [here] at tornDown
      exact custody.move rfl rfl rfl (by rw [here]; simp [LoopPhase.held]) tornDown id
  | disconnect => exact custody.move rfl rfl rfl rfl tornDown id
  | reuse back length => exact custody.setArray

theorem custody_run {schedule : List (Label calls)} (run : exec (step json) {} schedule = some t) :
    Custody t :=
  exec_invariant Custody (fun _ _ _ custody taken => custody.step (step_cases taken))
    Custody.initial run

end Custody

/-! ## Arrays that are returned once -/

/-- Every array was returned at most once, and the one being written was not returned. -/
def OneOwner (s : State calls) : Prop :=
  s.returned.Nodup ∧ ∀ segment, s.loop = .writing segment → segment.call ∉ s.returned

/-- The drainer is disposed while no call is between `Enqueue` and `_sendQueueDrainer.Send()`, and
nothing is enqueued while the completed handler empties the queue. -/
def Undisturbed (s : State calls) : Label calls → Prop
  | .disposeDrainer => ∀ call, s.sender call ≠ .enqueued
  | .enqueue _ => s.loop.isEmptying = false
  | _ => True

/-- The teardown and every call are over. -/
def Settled (s : State calls) : Prop :=
  s.loop = .closed ∧ ∀ call, s.sender call ≠ .enqueued ∧ s.sender call ≠ .refused

/-- With the drainer disposed, the call itself returns the array. -/
def SenderPhase.keepsArray : SenderPhase → Bool
  | .enqueued | .refused | .released => true
  | _ => false

/-- What such a call has enqueued stays in the queue for good. -/
def LeftInQueue (s : State calls) : Prop :=
  s.drainerDisposed = true → ∀ call, (s.sender call).keepsArray = true →
    s.loop = .closed ∧ call ∈ s.sendQueue.map Segment.call

/-- The loop thread has returned the call's array or is going to, and so has the call. -/
structure Doomed (call : Fin calls) (s : State calls) : Prop where
  disposed : s.drainerDisposed = true
  keeps : (s.sender call).keepsArray = true
  claimed : call ∈ s.loopReturns ++ s.loop.held ∨
    (s.loop.isEmptying = true ∧ call ∈ s.sendQueue.map Segment.call)

section OneOwner

variable {json : Fin calls → Bytes} {s t : State calls} {call : Fin calls} {phase : SenderPhase}
  {label : Label calls} {schedule : List (Label calls)}

theorem wasRefused_of_hasReturned_of_hasEnqueued (returned : phase.hasReturned = true)
    (enqueued : phase.hasEnqueued = true) : phase.wasRefused = true := by
  cases phase with
  | released => rfl
  | thrown => cases enqueued
  | _ => cases returned

theorem keepsArray_of_wasRefused (refused : phase.wasRefused = true) :
    phase.keepsArray = true := by
  cases phase with
  | refused => rfl
  | released => rfl
  | _ => cases refused

theorem isTornDown_of_isEmptying {loop : LoopPhase calls} (emptying : loop.isEmptying = true) :
    loop.isTornDown = true := by
  cases loop with
  | emptying => rfl
  | discarding => rfl
  | _ => cases emptying

/-- A call that has returned an array the loop thread had or has was refused. -/
theorem Custody.refused_of_returned (custody : Custody s) (returned : call ∈ s.senderReturns)
    (enqueued : call ∈ s.enqueued) : (s.sender call).wasRefused = true :=
  wasRefused_of_hasReturned_of_hasEnqueued ((custody.returners call).mp returned)
    ((custody.enqueuers call).mp enqueued)

/-- Before the teardown, no array the loop thread holds or has yet to fetch was returned. -/
theorem Custody.not_returned (custody : Custody s) (present : s.drainerDisposed = false)
    (waiting : call ∈ s.loop.held ++ s.sendQueue.map Segment.call) : call ∉ s.returned := by
  have places := custody.enqueued
  rw [List.append_assoc] at places
  intro returned
  rcases List.mem_append.mp returned with byLoop | bySender
  · have once := custody.once
    rw [places] at once
    exact List.disjoint_of_nodup_append once byLoop waiting
  · have enqueued : call ∈ s.enqueued := places ▸ List.mem_append_right _ waiting
    have disposed := custody.refused call (custody.refused_of_returned bySender enqueued)
    cases present.symm.trans disposed

theorem Custody.not_returned_of_writing (custody : Custody s) {segment : Segment calls}
    (writing : s.loop = .writing segment) : segment.call ∉ s.returned := by
  have present := custody.tornDown
  rw [writing] at present
  apply custody.not_returned present
  rw [writing]
  exact List.mem_append_left _ (List.mem_singleton_self _)

/-- No array that is still in the queue was returned by the loop thread. -/
theorem Custody.not_mem_loopReturns (custody : Custody s)
    (queued : call ∈ s.sendQueue.map Segment.call) : call ∉ s.loopReturns := by
  have once := custody.once
  rw [custody.enqueued, List.append_assoc] at once
  exact fun returned =>
    List.disjoint_of_nodup_append once returned (List.mem_append_right _ queued)

theorem Custody.returned_nodup (custody : Custody s) (left : LeftInQueue s) :
    s.returned.Nodup := by
  have once := custody.once
  have member : ∀ c ∈ s.loopReturns, c ∈ s.enqueued := fun c returned => by
    rw [custody.enqueued, List.append_assoc]
    exact List.mem_append_left _ returned
  rw [custody.enqueued, List.append_assoc] at once
  refine List.nodup_append.mpr ⟨once.of_append_left, custody.returnedOnce, ?_⟩
  intro c byLoop _ bySender same
  subst same
  have refused := custody.refused_of_returned bySender (member c byLoop)
  have queued := (left (custody.refused c refused) c (keepsArray_of_wasRefused refused)).2
  exact custody.not_mem_loopReturns queued byLoop

/-- A call moves on, and does not take its array back unless it kept it before. -/
theorem LeftInQueue.setSender {old : SenderPhase} (left : LeftInQueue s)
    (here : s.sender call = old) (kept : phase.keepsArray = true → old.keepsArray = true) :
    LeftInQueue (s.setSender call phase) := by
  intro disposed c keeps
  by_cases same : c = call
  · rw [same, sender_setSender_self] at keeps
    exact same ▸ left disposed call (here ▸ kept keeps)
  · rw [sender_setSender_of_ne same] at keeps
    exact left disposed c keeps

theorem LeftInQueue.enqueue {size : Nat} (custody : Custody s) (left : LeftInQueue s)
    (undisturbed : s.loop.isEmptying = false) :
    LeftInQueue { s.setSender call .enqueued with
      sendQueue := s.sendQueue ++ [⟨call, size⟩]
      enqueued := s.enqueued ++ [call] } := by
  intro disposed c keeps
  rw [List.map_append]
  have closed : s.loop = .closed := by
    have tornDown := custody.tornDown.symm.trans disposed
    cases loop : s.loop with
    | closed => rfl
    | emptying => rw [loop] at undisturbed; cases undisturbed
    | discarding => rw [loop] at undisturbed; cases undisturbed
    | _ => rw [loop] at tornDown; cases tornDown
  refine ⟨closed, List.mem_append.mpr ?_⟩
  by_cases same : c = call
  · exact Or.inr (same ▸ List.mem_singleton_self call)
  · replace keeps := sender_setSender_of_ne same ▸ keeps
    exact Or.inl (left disposed c keeps).2

/-- Before the queue is closed, nobody has an array that is left in it. -/
theorem LeftInQueue.of_not_closed (left : LeftInQueue s) (opened : s.loop ≠ .closed)
    (sender : t.sender = s.sender) (disposed : t.drainerDisposed = s.drainerDisposed) :
    LeftInQueue t := by
  intro gone c keeps
  rw [sender] at keeps
  exact (opened (left (disposed ▸ gone) c keeps).1).elim

theorem LeftInQueue.step (custody : Custody s) (left : LeftInQueue s)
    (undisturbed : Undisturbed s label) (taken : Taken json s label t) : LeftInQueue t := by
  have still : ∀ {loop : LoopPhase calls}, s.loop = loop → loop ≠ .closed → s.loop ≠ .closed :=
    fun here differs => here ▸ differs
  cases taken with
  | test here =>
      cases s.isAlive with
      | false => exact left.setSender here fun keeps => nomatch keeps
      | true => exact left.setSender here fun keeps => nomatch keeps
  | rent here =>
      exact LeftInQueue.setSender (s := s.setArray _ _) left here fun keeps => nomatch keeps
  | serialize here =>
      exact LeftInQueue.setSender (s := s.setArray _ _) left here fun keeps => nomatch keeps
  | exceed here => exact left.setSender here fun keeps => nomatch keeps
  | enqueue here => exact left.enqueue custody undisturbed
  | signal here => exact left.setSender here fun _ => rfl
  | giveBackFailed here => exact left.setSender here fun keeps => nomatch keeps
  | giveBackRefused here => exact left.setSender here fun _ => rfl
  | disposeDrainer here =>
      -- the guard leaves only calls the drainer has refused, and it has refused none before
      intro _ c keeps
      have refused : (s.sender c).wasRefused = true := by
        have passed := undisturbed c
        dsimp only at keeps
        cases phase : s.sender c with
        | enqueued => exact (passed phase).elim
        | refused => rfl
        | released => rfl
        | _ => rw [phase] at keeps; cases keeps
      have disposed := custody.tornDown.symm.trans (custody.refused c refused)
      rw [here] at disposed
      cases disposed
  | drain here present => exact left.of_not_closed (still here (nomatch ·)) rfl rfl
  | drained here empty => exact left.of_not_closed (still here (nomatch ·)) rfl rfl
  | dequeue here queue => exact left.of_not_closed (still here (nomatch ·)) rfl rfl
  | queueWrite here => exact left.of_not_closed (still here (nomatch ·)) rfl rfl
  | dispose here => exact left.of_not_closed (still here (nomatch ·)) rfl rfl
  | complete here => exact left.of_not_closed (still here (nomatch ·)) rfl rfl
  | clearToken here => exact left.of_not_closed (still here (nomatch ·)) rfl rfl
  | emptied here empty => exact left.of_not_closed (still here (nomatch ·)) rfl rfl
  | discard here queue => exact left.of_not_closed (still here (nomatch ·)) rfl rfl
  | disposeDiscarded here => exact left.of_not_closed (still here (nomatch ·)) rfl rfl
  | disconnect => exact left
  | reuse back length => exact left

theorem Doomed.setSender {other : Fin calls} {old : SenderPhase} (doomed : Doomed call s)
    (here : s.sender other = old) (kept : old.keepsArray = true → phase.keepsArray = true) :
    Doomed call (s.setSender other phase) where
  disposed := doomed.disposed
  keeps := by
    by_cases same : call = other
    · rw [same, sender_setSender_self]
      exact kept (here ▸ same ▸ doomed.keeps)
    · rw [sender_setSender_of_ne same]
      exact doomed.keeps
  claimed := doomed.claimed

/-- The loop thread has torn nothing down yet, so that nothing is doomed. -/
theorem Doomed.absurd_of_loop {loop : LoopPhase calls} (doomed : Doomed call s)
    (custody : Custody s) (here : s.loop = loop) (alive : loop.isTornDown = false) : False := by
  have tornDown := custody.tornDown.symm.trans doomed.disposed
  rw [here, alive] at tornDown
  cases tornDown

theorem Doomed.step (custody : Custody s) (doomed : Doomed call s) (taken : Taken json s label t) :
    Doomed call t := by
  cases taken with
  | test here =>
      exact doomed.setSender here fun keeps => nomatch keeps
  | rent here =>
      exact Doomed.setSender (s := s.setArray _ _) ⟨doomed.1, doomed.2, doomed.3⟩ here
        fun keeps => nomatch keeps
  | serialize here =>
      exact Doomed.setSender (s := s.setArray _ _) ⟨doomed.1, doomed.2, doomed.3⟩ here
        fun keeps => nomatch keeps
  | exceed here => exact doomed.setSender here fun keeps => nomatch keeps
  | @enqueue other size here =>
      have moved : Doomed call (s.setSender other .enqueued) :=
        doomed.setSender here fun keeps => nomatch keeps
      refine ⟨moved.disposed, moved.keeps, moved.claimed.imp_right fun queued => ⟨queued.1, ?_⟩⟩
      rw [List.map_append]
      exact List.mem_append_left _ queued.2
  | signal here =>
      rw [if_pos doomed.disposed]
      exact doomed.setSender here fun _ => rfl
  | @giveBackFailed other here =>
      have moved : Doomed call (s.setSender other .thrown) :=
        doomed.setSender here fun keeps => nomatch keeps
      exact ⟨moved.disposed, moved.keeps, moved.claimed⟩
  | @giveBackRefused other here =>
      have moved : Doomed call (s.setSender other .released) := doomed.setSender here fun _ => rfl
      exact ⟨moved.disposed, moved.keeps, moved.claimed⟩
  | emptied here empty =>
      refine ⟨doomed.disposed, doomed.keeps, Or.inl ?_⟩
      rcases doomed.claimed with claimed | ⟨_, queued⟩
      · rw [here] at claimed
        exact claimed
      · rw [empty] at queued
        cases queued
  | discard here queue =>
      refine ⟨doomed.disposed, doomed.keeps, ?_⟩
      rcases doomed.claimed with claimed | ⟨_, queued⟩
      · simp only [here, LoopPhase.held, List.append_nil] at claimed
        exact Or.inl (List.mem_append_left _ claimed)
      · rw [queue, List.map_cons] at queued
        rcases List.mem_cons.mp queued with rfl | later
        · exact Or.inl (List.mem_append_right _ (List.mem_singleton_self _))
        · exact Or.inr ⟨rfl, later⟩
  | disposeDiscarded here =>
      refine ⟨doomed.disposed, doomed.keeps, ?_⟩
      rcases doomed.claimed with claimed | ⟨_, queued⟩
      · rw [here] at claimed
        exact Or.inl (List.mem_append_left _ claimed)
      · exact Or.inr ⟨rfl, queued⟩
  | disconnect => exact ⟨doomed.disposed, doomed.keeps, doomed.claimed⟩
  | reuse back length => exact ⟨doomed.disposed, doomed.keeps, doomed.claimed⟩
  | drain here present => exact (doomed.absurd_of_loop custody here rfl).elim
  | drained here empty => exact (doomed.absurd_of_loop custody here rfl).elim
  | dequeue here queue => exact (doomed.absurd_of_loop custody here rfl).elim
  | queueWrite here => exact (doomed.absurd_of_loop custody here rfl).elim
  | dispose here => exact (doomed.absurd_of_loop custody here rfl).elim
  | complete here => exact (doomed.absurd_of_loop custody here rfl).elim
  | clearToken here => exact (doomed.absurd_of_loop custody here rfl).elim
  | disposeDrainer here => exact (doomed.absurd_of_loop custody here rfl).elim

/-- A step outside the condition dooms a call. -/
theorem exists_doomed (custody : Custody s) (disturbed : ¬ Undisturbed s label)
    (taken : Taken json s label t) : ∃ call, Doomed call t := by
  cases taken with
  | @enqueue call size here =>
      have emptying : s.loop.isEmptying = true := by simpa [Undisturbed] using disturbed
      refine ⟨call, custody.tornDown.trans (isTornDown_of_isEmptying emptying), ?_, ?_⟩
      · rw [show _ = _ from sender_setSender_self]
        rfl
      · exact Or.inr ⟨emptying, by simp⟩
  | disposeDrainer here =>
      have waiting : ∃ call, s.sender call = .enqueued := by
        by_contra none
        exact disturbed fun call phase => none ⟨call, phase⟩
      rcases waiting with ⟨call, phase⟩
      have member : call ∈ s.enqueued := (custody.enqueuers call).mpr (phase ▸ rfl)
      rw [custody.enqueued, here, List.append_assoc] at member
      refine ⟨call, rfl, by rw [show s.sender call = _ from phase]; rfl, ?_⟩
      rcases List.mem_append.mp member with returned | queued
      · exact Or.inl (List.mem_append_left _ returned)
      · exact Or.inr ⟨rfl, queued⟩
  | _ => exact (disturbed trivial).elim

/-- Once everything is over, a doomed array has been returned twice. -/
theorem Doomed.not_nodup (custody : Custody s) (doomed : Doomed call s) (settled : Settled s) :
    ¬ s.returned.Nodup := by
  have byLoop : call ∈ s.loopReturns := by
    rcases doomed.claimed with claimed | ⟨emptying, _⟩
    · simp only [settled.1, LoopPhase.held, List.append_nil] at claimed
      exact claimed
    · rw [settled.1] at emptying
      cases emptying
  have bySender : call ∈ s.senderReturns := by
    have keeps := doomed.keeps
    apply (custody.returners call).mpr
    cases phase : s.sender call with
    | released => rfl
    | enqueued => exact ((settled.2 call).1 phase).elim
    | refused => exact ((settled.2 call).2 phase).elim
    | _ => rw [phase] at keeps; cases keeps
  exact fun once => List.disjoint_of_nodup_append once byLoop bySender

/-- Where everything is over and every array was returned once, nothing was disturbed. -/
theorem guarded_of_returned_nodup (run : exec (step json) {} schedule = some t)
    (settled : Settled t) (once : t.returned.Nodup) :
    Guarded (step json) Undisturbed {} schedule := by
  rw [guarded_iff_forall_split]
  intro before label after u split reached
  by_contra disturbed
  rw [split] at run
  rcases exec_append_eq_some.mp run with ⟨_, again, rest⟩
  cases Option.some.inj (reached.symm.trans again)
  rcases exec_cons_eq_some.mp rest with ⟨v, taken, rest⟩
  have custody := custody_run reached
  rcases exists_doomed custody disturbed (step_cases taken) with ⟨call, doomed⟩
  have final : Custody t ∧ Doomed call t :=
    exec_invariant (fun w => Custody w ∧ Doomed call w)
      (fun _ _ _ both taken =>
        ⟨both.1.step (step_cases taken), both.2.step both.1 (step_cases taken)⟩)
      ⟨custody.step (step_cases taken), doomed⟩ rest
  exact final.2.not_nodup final.1 settled once

/-- **Who returns an outbound array.**  In every run whose drainer is not disposed between a call's
`Enqueue` and its `_sendQueueDrainer.Send()`, and in which nothing is enqueued while the completed
handler empties the queue, every array is returned to the pool at most once and is written to the
socket before; and where everything has come to its end, only in these runs. -/
theorem oneOwner_run_iff (json : Fin calls → Bytes) (run : exec (step json) {} schedule = some t) :
    (Guarded (step json) Undisturbed {} schedule → OneOwner t) ∧
    (Settled t → OneOwner t → Guarded (step json) Undisturbed {} schedule) := by
  refine ⟨fun undisturbed => ?_, fun settled owned => guarded_of_returned_nodup run settled owned.1⟩
  have final : Custody t ∧ LeftInQueue t :=
    exec_invariant_of_guarded (fun w => Custody w ∧ LeftInQueue w)
      (fun _ _ _ both undisturbed taken =>
        ⟨both.1.step (step_cases taken), both.2.step both.1 undisturbed (step_cases taken)⟩)
      ⟨Custody.initial, fun disposed => nomatch disposed⟩ undisturbed run
  exact ⟨final.1.returned_nodup final.2, fun _ => final.1.not_returned_of_writing⟩

end OneOwner

/-- An array of the length `Send` asks for. -/
def sampleArray : Bytes := List.replicate maxOutboundRequestLength 0

theorem sampleArray_length : sampleArray.length = maxOutboundRequestLength := List.length_replicate

/-- The payload `{}`. -/
def sampleJson : Fin 1 → Bytes := fun _ => [0x7b, 0x7d]

/-- The state with the sample message in the queue. -/
def sampleQueued (arrays : Fin 1 → Bytes) : State 1 where
  arrays := arrays
  sender := fun other => if other = 0 then .enqueued else .idle
  sendQueue := [⟨0, 3⟩]
  enqueued := [0]

theorem exec_sampleQueued :
    ∃ arrays, exec (step sampleJson) {} [.test 0, .rent 0 sampleArray, .serialize 0, .enqueue 0] =
      some (sampleQueued arrays) := by
  have large : maxOutboundRequestLength ≤ sampleArray.length := Nat.le_of_eq sampleArray_length.symm
  have fits : (sampleJson 0).length + 1 ≤ sampleArray.length := by
    rw [sampleArray_length]
    decide
  exact ⟨_, exec_upTo_enqueue (s := {}) rfl rfl large fits⟩

/-- The message is sent before the connection closes. -/
theorem array_returned_once :
    ∃ s, exec (step sampleJson) {} ([.test 0, .rent 0 sampleArray, .serialize 0, .enqueue 0] ++
        [.signal 0, .drain true, .dequeue, .queueWrite false, .dispose, .dequeue, .complete,
          .clearToken, .disposeDrainer, .dequeue]) = some s ∧ OneOwner s ∧
      Guarded (step sampleJson) Undisturbed {}
        ([.test 0, .rent 0 sampleArray, .serialize 0, .enqueue 0] ++
          [.signal 0, .drain true, .dequeue, .queueWrite false, .dispose, .dequeue, .complete,
            .clearToken, .disposeDrainer, .dequeue]) := by
  rcases exec_sampleQueued with ⟨arrays, front⟩
  obtain ⟨s, back, closed, sent, returned⟩ : ∃ s, exec (step sampleJson) (sampleQueued arrays)
      [.signal 0, .drain true, .dequeue, .queueWrite false, .dispose, .dequeue, .complete,
        .clearToken, .disposeDrainer, .dequeue] = some s ∧ s.loop = .closed ∧
      s.sender 0 = .sent ∧ s.returned = [0] := ⟨_, rfl, rfl, rfl, rfl⟩
  have run := exec_append_eq_some.mpr ⟨_, front, back⟩
  have owned : OneOwner s := by
    refine ⟨returned ▸ List.nodup_singleton 0, fun segment writing => ?_⟩
    rw [closed] at writing
    cases writing
  have settled : Settled s := by
    refine ⟨closed, fun call => ?_⟩
    rw [Subsingleton.elim call 0, sent]
    decide
  exact ⟨s, run, owned, (oneOwner_run_iff sampleJson run).2 settled owned⟩

/-- The connection closes between `Enqueue` and `_sendQueueDrainer.Send()`: the call returns the
array, and the loop thread returns it as well. -/
theorem array_returned_twice :
    ∃ s, exec (step sampleJson) {} ([.test 0, .rent 0 sampleArray, .serialize 0, .enqueue 0] ++
      [.complete, .clearToken, .disposeDrainer, .signal 0, .giveBack 0, .dequeue, .dispose,
        .dequeue]) = some s ∧ ¬ OneOwner s := by
  rcases exec_sampleQueued with ⟨arrays, front⟩
  obtain ⟨s, back, returned⟩ : ∃ s, exec (step sampleJson) (sampleQueued arrays) [.complete,
      .clearToken, .disposeDrainer, .signal 0, .giveBack 0, .dequeue, .dispose, .dequeue] =
      some s ∧ s.returned = [0, 0] := ⟨_, rfl, rfl⟩
  refine ⟨s, exec_append_eq_some.mpr ⟨_, front, back⟩, ?_⟩
  intro both
  rcases both with ⟨once, _⟩
  rw [returned] at once
  exact absurd once (by decide)

end Hypepool.StratumClient
