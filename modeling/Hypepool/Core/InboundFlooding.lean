import Hypepool.Core.PooledLineBufferLimits
import Hypepool.Core.PooledLineBufferMoments
import Hypepool.Core.StratumServer

/-!
# Flooding clients

`StratumClient.Receive` hands what is read to the line buffer of the connection, unless the client
is no longer alive.  An error of the buffer goes to `OnReceiveError`, which disconnects the client
before `Receive` returns:

* `flooding_cutOff`: exactly a chunk or a queue above the limit is an error, it is the last thing
  that is ever received, and neither the queue nor a line outgrows twice the limit up to there.
-/

namespace Hypepool.StratumClient

open Base PooledLineBuffer StratumServer

variable {Context : Type}

/-- `MaxInboundRequestLength`. -/
def maxInboundRequestLength : Nat := 8192

/-- A client and its `_pooledLineBuffer`. -/
structure Connection (Context : Type) where
  client : Client Context
  buffer : PooledLineBuffer := limitedTo maxInboundRequestLength

inductive Inbound
  /-- what is read at the time `now`. -/
  | chunk (now : Int) (bytes : Bytes)
  /-- somebody else disconnects the client. -/
  | disconnect

/-- How much is read. -/
def Inbound.length : Inbound → Nat
  | .chunk _ bytes => bytes.length
  | .disconnect => 0

/-- The callbacks of the line buffer: `onNext` starts a task for the line, and `onError` is
`OnReceiveError`, which disconnects the client. -/
def callback (client : Client Context) : LineEvent → Client Context
  | .onError _ => client.disconnect
  | _ => client

/-- What `tcp.OnRead` does with an arrival, and what the line buffer does then. -/
def receive (pool : ArrayPool) (connection : Connection Context) :
    Inbound → List LineEvent × Connection Context
  | .disconnect => ([], { connection with client := connection.client.disconnect })
  | .chunk now bytes =>
      if bytes.length = 0 ∨ connection.client.isAlive = false then ([], connection)
      else
        let (events, buffer) := receiveChunk pool connection.buffer bytes
        (events, {
          client := events.foldl callback { connection.client with lastReceive := some now }
          buffer })

/-- The arrival is handed to the line buffer. -/
def Calls (connection : Connection Context) : Inbound → Prop
  | .disconnect => False
  | .chunk _ bytes => bytes.length ≠ 0 ∧ connection.client.isAlive = true

/-- While the client is alive, what is queued is within the limit. -/
structure Bounded (connection : Connection Context) : Prop where
  wellFormed : WellFormed connection.buffer
  limit : connection.buffer.maxLength = some (maxInboundRequestLength : Int)
  total : queuedLength connection.buffer.recvQueue ≤ 2 * maxInboundRequestLength
  alive : connection.client.isAlive = true →
    queuedLength connection.buffer.recvQueue ≤ maxInboundRequestLength

section Step

variable (pool : ArrayPool) {connection : Connection Context} {input : Inbound}

/-- The client survives the callbacks if there is no error among them. -/
theorem isAlive_foldl_callback (events : List LineEvent) (client : Client Context) :
    (events.foldl callback client).isAlive = (client.isAlive && (errorsOf events).isEmpty) := by
  induction events generalizing client with
  | nil => exact (Bool.and_true _).symm
  | cons event events ih =>
      rw [List.foldl_cons, ih]
      cases event with
      | onError exception => exact (Bool.and_false _).symm
      | _ => rfl

/-- What one call of the line buffer leaves queued of a chunk that is not too long. -/
theorem pending_receiveChunk {b : PooledLineBuffer} {bytes : Bytes} (wf : WellFormed b)
    (limit : b.maxLength = some (maxInboundRequestLength : Int))
    (short : bytes.length ≤ maxInboundRequestLength) :
    pending (receiveChunk pool b bytes).2 = remainder newline (pending b ++ bytes) := by
  obtain ⟨received, _⟩ := receiveChunk_received pool wf bytes
  have accepted : exceeds b.maxLength bytes.length = false :=
    limit ▸ exceeds_eq_false_iff.mpr short
  exact received.queued.trans (feed_of_accepted wf.unterminated accepted).2

/-- What one call of the line buffer does, on a queue within the limit. -/
theorem receiveChunk_bounded {b : PooledLineBuffer} (wf : WellFormed b)
    (limit : b.maxLength = some (maxInboundRequestLength : Int))
    (within : queuedLength b.recvQueue ≤ maxInboundRequestLength) (bytes : Bytes) :
    Stays (2 * maxInboundRequestLength) b.recvQueue (receiveChunk pool b bytes).1
        (receiveChunk pool b bytes).2.recvQueue ∧
      (∀ segment, .onNext segment ∈ (receiveChunk pool b bytes).1 →
        segment.size < 2 * maxInboundRequestLength) ∧
      (errorsOf (receiveChunk pool b bytes).1 = [] ↔ bytes.length ≤ maxInboundRequestLength ∧
        queuedLength (receiveChunk pool b bytes).2.recvQueue ≤ maxInboundRequestLength) := by
  obtain ⟨received, recorded⟩ := receiveChunk_received pool wf bytes
  obtain ⟨events, log, sized, reported⟩ := received.events
  have queued : queuedLength b.recvQueue = (pending b).length := queuedLength_eq wf.fragments
  have queued' : queuedLength (receiveChunk pool b bytes).2.recvQueue =
      (pending (receiveChunk pool b bytes).2).length :=
    queuedLength_eq received.wellFormed.fragments
  have fed : feed (exceeds (some (maxInboundRequestLength : Int))) newline (pending b) bytes =
      (events.filterMap framed, pending (receiveChunk pool b bytes).2) :=
    limit ▸ Prod.ext reported.symm received.queued.symm
  rw [log, List.nil_append] at recorded
  rw [recorded]
  refine ⟨?_, fun segment member => ?_, ?_⟩
  · rw [← recorded]
    refine stays_receiveChunk pool bytes wf (by omega) fun accepted => ?_
    rw [limit] at accepted
    have short := exceeds_eq_false_iff.mp accepted
    omega
  · have record : Framed.record segment.toArray ∈
        (feed (exceeds (some (maxInboundRequestLength : Int))) newline (pending b) bytes).1 :=
      fed ▸ record_mem_of_onNext member
    have nonempty : bytes ≠ [] := by
      intro nothing
      subst nothing
      cases record
    by_cases wide : exceeds (some (maxInboundRequestLength : Int)) bytes.length = true
    · rw [feed_refused nonempty wide] at record
      cases List.mem_singleton.mp record
    · have accepted := Bool.eq_false_iff.mpr wide
      have short := exceeds_eq_false_iff.mp accepted
      have listed : segment.toArray ∈ records
          (feed (exceeds (some (maxInboundRequestLength : Int))) newline (pending b) bytes).1 :=
        List.mem_filterMap.mpr ⟨_, record, rfl⟩
      rw [(feed_of_accepted wf.unterminated accepted).1] at listed
      have less := length_lt_of_mem_terminated (List.mem_filter.mp listed).1
      rw [List.length_append, sized segment member] at less
      omega
  · have start : exceeds (some (maxInboundRequestLength : Int)) (pending b).length = false :=
      exceeds_eq_false_iff.mpr (queued ▸ within)
    have none : exceeds (some (maxInboundRequestLength : Int)) 0 = false :=
      exceeds_eq_false_iff.mpr (Nat.zero_le _)
    have quiet : Quiet (feed (exceeds (some (maxInboundRequestLength : Int))) newline (pending b)
        bytes).1 ↔ _ := quiet_feed_iff none wf.unterminated start
    rw [fed, exceeds_eq_false_iff, exceeds_eq_false_iff] at quiet
    rw [errorsOf_eq_nil_iff, quiet, queued']
    refine and_congr_right fun short => ?_
    rw [pending_receiveChunk pool wf limit short]

theorem receive_of_calls (calls : Calls connection input) :
    ∃ now bytes, input = .chunk now bytes ∧ connection.client.isAlive = true ∧
      receive pool connection input =
        ((receiveChunk pool connection.buffer bytes).1, {
          client := (receiveChunk pool connection.buffer bytes).1.foldl callback
            { connection.client with lastReceive := some now }
          buffer := (receiveChunk pool connection.buffer bytes).2 }) := by
  cases input with
  | disconnect => exact calls.elim
  | chunk now bytes =>
      refine ⟨now, bytes, rfl, calls.2, if_neg fun ignored => ?_⟩
      rcases ignored with nothing | dead
      · exact calls.1 nothing
      · rw [calls.2] at dead
        cases dead

/-- Anything that is not handed to the line buffer leaves it alone, and the client no more alive
than it was. -/
theorem receive_of_not_calls (passed : ¬ Calls connection input) :
    (receive pool connection input).1 = [] ∧
      (receive pool connection input).2.buffer = connection.buffer ∧
      ((receive pool connection input).2.client.isAlive = true →
        connection.client.isAlive = true) := by
  cases input with
  | disconnect => exact ⟨rfl, rfl, fun alive => nomatch alive⟩
  | chunk now bytes =>
      have ignored : bytes.length = 0 ∨ connection.client.isAlive = false := by
        by_cases nothing : bytes.length = 0
        · exact Or.inl nothing
        · exact Or.inr (Bool.eq_false_iff.mpr fun alive => passed ⟨nothing, alive⟩)
      rw [receive, if_pos ignored]
      exact ⟨rfl, rfl, id⟩

theorem Bounded.step (bounded : Bounded connection) (input : Inbound) :
    Bounded (receive pool connection input).2 := by
  by_cases calls : Calls connection input
  · obtain ⟨now, bytes, _, alive, result⟩ := receive_of_calls pool calls
    obtain ⟨received, _⟩ := receiveChunk_received pool bounded.wellFormed bytes
    obtain ⟨stays, _, silent⟩ := receiveChunk_bounded pool bounded.wellFormed
      bounded.limit (bounded.alive alive) bytes
    rw [result]
    refine ⟨received.wellFormed, received.maxLength.trans bounded.limit, stays.final, ?_⟩
    intro survives
    rw [isAlive_foldl_callback, Bool.and_eq_true] at survives
    exact (silent.mp (List.isEmpty_iff.mp survives.2)).2
  · obtain ⟨_, same, alive⟩ := receive_of_not_calls pool calls
    exact ⟨same ▸ bounded.wellFormed, same ▸ bounded.limit, same ▸ bounded.total,
      fun survives => same ▸ bounded.alive (alive survives)⟩

end Step

/-! ## Runs -/

section Run

variable {pool : ArrayPool} {connection : Connection Context}

theorem bounded_fresh (client : Client Context) : Bounded { client := client } where
  wellFormed := (Receives.empty (some (maxInboundRequestLength : Int))).wellFormed
  limit := rfl
  total := Nat.zero_le _
  alive _ := Nat.zero_le _

/-- Once the client is not alive, nothing is delivered or queued any more. -/
theorem silent_of_dead (dead : connection.client.isAlive = false) (inputs : List Inbound) :
    (∀ events ∈ outputs (receive pool) connection inputs, events = []) ∧
      (finalState (receive pool) connection inputs).buffer = connection.buffer := by
  induction inputs generalizing connection with
  | nil => exact ⟨fun _ member => (nomatch member), rfl⟩
  | cons input inputs ih =>
      have passed : ¬ Calls connection input := by
        cases input with
        | disconnect => exact id
        | chunk now bytes => exact fun calls => Bool.false_ne_true (dead.symm.trans calls.2)
      obtain ⟨nothing, same, alive⟩ := receive_of_not_calls pool passed
      have stillDead : (receive pool connection input).2.client.isAlive = false :=
        Bool.eq_false_iff.mpr fun survives => Bool.false_ne_true (dead.symm.trans (alive survives))
      obtain ⟨later, unchanged⟩ := ih stillDead
      refine ⟨fun events member => ?_, unchanged.trans same⟩
      rcases List.mem_cons.mp member with here | rest
      · exact here.trans nothing
      · exact later events rest

end Run

/-- **A flooding client is cut off.**  Take any arrival on a connection, with whatever came before
it and comes after it.  At every moment of it the fragments in the queue amount to at most twice the
limit, every line it delivers is shorter than that, and a call of the line buffer that reports no
error leaves at most the limit queued.  The call reports an error exactly when the chunk is longer
than the limit, or leaves more than the limit queued.  Then the client is not alive any more, and no
later arrival delivers a line or touches the queue. -/
theorem flooding_cutOff (pool : ArrayPool) (client : Client Context) (before : List Inbound)
    (input : Inbound) (after : List Inbound) :
    let connection := finalState (receive pool) { client := client } before
    let events := (receive pool connection input).1
    let next := (receive pool connection input).2
    Stays (2 * maxInboundRequestLength) connection.buffer.recvQueue events
        next.buffer.recvQueue ∧
      (∀ segment, .onNext segment ∈ events → segment.size < 2 * maxInboundRequestLength) ∧
      (Calls connection input → errorsOf events = [] →
        queuedLength next.buffer.recvQueue ≤ maxInboundRequestLength) ∧
      (Calls connection input → (errorsOf events ≠ [] ↔
        maxInboundRequestLength < input.length ∨
          maxInboundRequestLength < queuedLength next.buffer.recvQueue)) ∧
      (errorsOf events ≠ [] → next.client.isAlive = false ∧
        (∀ later ∈ outputs (receive pool) next after, later = []) ∧
          (finalState (receive pool) next after).buffer = next.buffer) := by
  intro connection events next
  have bounded : Bounded connection :=
    finalState_invariant Bounded (fun _ input bounded => bounded.step pool input)
      (bounded_fresh client)
  by_cases calls : Calls connection input
  · obtain ⟨now, bytes, isChunk, alive, result⟩ := receive_of_calls pool calls
    obtain ⟨stays, lines, silent⟩ := receiveChunk_bounded pool bounded.wellFormed
      bounded.limit (bounded.alive alive) bytes
    have recorded : events = (receiveChunk pool connection.buffer bytes).1 :=
      congrArg Prod.fst result
    have buffered : next.buffer = (receiveChunk pool connection.buffer bytes).2 :=
      congrArg (fun pair => pair.2.buffer) result
    have length : input.length = bytes.length := by
      rw [isChunk]
      rfl
    rw [recorded, buffered, length]
    refine ⟨stays, lines, fun _ quiet => (silent.mp quiet).2, fun _ => ?_, fun reported => ?_⟩
    · rw [Ne, silent, not_and_or, Nat.not_le, Nat.not_le]
    · have dead : next.client.isAlive = false := by
        have survives : next.client.isAlive = (true && (errorsOf events).isEmpty) := by
          rw [recorded, ← alive]
          exact (congrArg (fun pair => pair.2.client.isAlive) result).trans
            (isAlive_foldl_callback _ _)
        rw [survives, Bool.true_and]
        exact List.isEmpty_eq_false_iff.mpr (recorded ▸ reported)
      exact ⟨dead, buffered ▸ silent_of_dead dead after⟩
  · obtain ⟨nothing, same, _⟩ := receive_of_not_calls pool calls
    have quiet : events = [] := nothing
    have unchanged : next.buffer = connection.buffer := same
    rw [quiet, unchanged]
    exact ⟨.done bounded.total, fun segment member => (nomatch member),
      fun isCall => (calls isCall).elim, fun isCall => (calls isCall).elim,
      fun reported => (reported rfl).elim⟩

theorem calls_chunk {connection : Connection Context} {bytes : Bytes} (now : Int)
    (more : bytes ≠ []) (alive : connection.client.isAlive = true) :
    Calls connection (.chunk now bytes) :=
  ⟨fun none => more (List.eq_nil_of_length_eq_zero none), alive⟩

/-- What is queued when a piece of a line was read. -/
theorem pending_receive_piece {pool : ArrayPool} {connection : Connection Context} {now : Int}
    {bytes : Bytes} (bounded : Bounded connection) (alive : connection.client.isAlive = true)
    (more : bytes ≠ []) (short : bytes.length ≤ maxInboundRequestLength)
    (noLine : newline ∉ pending connection.buffer ++ bytes) :
    let next := (receive pool connection (.chunk now bytes)).2
    pending next.buffer = pending connection.buffer ++ bytes ∧
      (next.client.isAlive = true ↔
        (pending connection.buffer ++ bytes).length ≤ maxInboundRequestLength) := by
  intro next
  obtain ⟨now', bytes', isChunk, _, result⟩ :=
    receive_of_calls pool (calls_chunk now more alive)
  cases isChunk
  obtain ⟨received, _⟩ := receiveChunk_received pool bounded.wellFormed bytes
  have kept := pending_receiveChunk pool bounded.wellFormed bounded.limit short
  rw [remainder_of_not_mem noLine] at kept
  obtain ⟨_, _, silent⟩ := receiveChunk_bounded pool bounded.wellFormed bounded.limit
    (bounded.alive alive) bytes
  have total := queuedLength_eq received.wellFormed.fragments
  have isNext : next = _ := congrArg Prod.snd result
  rw [isNext]
  refine ⟨kept, ?_⟩
  rw [isAlive_foldl_callback, Bool.and_eq_true, List.isEmpty_iff, silent, total, ← pending, kept]
  exact ⟨fun both => both.2.2, fun fits => ⟨alive, short, fits⟩⟩

/-- Two pieces of a line, of which the first is within the limit. -/
theorem queuedLength_pieces (pool : ArrayPool) {client : Client Context}
    (alive : client.isAlive = true) {first second : Bytes} (more : first ≠ []) (again : second ≠ [])
    (within : first.length ≤ maxInboundRequestLength)
    (short : second.length ≤ maxInboundRequestLength) (noLine : newline ∉ first ++ second) :
    let connection := finalState (receive pool) { client := client } [.chunk 0 first]
    let next := (receive pool connection (.chunk 1 second)).2
    connection.client.isAlive = true ∧
      queuedLength next.buffer.recvQueue = first.length + second.length := by
  intro connection next
  have bounded : Bounded connection := Bounded.step pool (bounded_fresh client) (.chunk 0 first)
  obtain ⟨fragment, lives⟩ := @pending_receive_piece _ pool { client := client } 0 first
    (bounded_fresh client) alive more within fun line => noLine (List.mem_append_left _ line)
  have isAlive : connection.client.isAlive = true := lives.mpr within
  have held : pending connection.buffer = first := fragment
  obtain ⟨queued, _⟩ :=
    @pending_receive_piece _ pool connection 1 second bounded isAlive again short (held ▸ noLine)
  have fragments := (bounded.step pool (.chunk 1 second)).wellFormed.fragments
  refine ⟨isAlive, (queuedLength_eq fragments).trans ?_⟩
  rw [← pending, queued, held, List.length_append]

/-- A client that has sent five thousand bytes of a line sends four thousand more; what it sends
then is not received. -/
theorem flooding_cutOff_sample :
    let alive : Client Unit := { isAlive := true }
    let connection := finalState (receive exactPool) { client := alive }
      [.chunk 0 (List.replicate 5000 0x62)]
    let flood : Inbound := .chunk 1 (List.replicate 4000 0x63)
    let next := (receive exactPool connection flood).2
    connection.client.isAlive = true ∧ errorsOf (receive exactPool connection flood).1 ≠ [] ∧
      next.client.isAlive = false ∧
        outputs (receive exactPool) next [.chunk 2 [0x64, 0x0a]] = [[]] := by
  -- What the two chunks consist of matters only here.
  generalize isFirst : List.replicate 5000 (0x62 : UInt8) = first
  generalize isSecond : List.replicate 4000 (0x63 : UInt8) = second
  have size : first.length = 5000 := by rw [← isFirst, List.length_replicate]
  have size' : second.length = 4000 := by rw [← isSecond, List.length_replicate]
  have noLine : newline ∉ first ++ second := by
    rw [List.mem_append, ← isFirst, ← isSecond, not_or]
    exact ⟨fun line => absurd (List.eq_of_mem_replicate line) (by decide),
      fun line => absurd (List.eq_of_mem_replicate line) (by decide)⟩
  have more : first ≠ [] := List.ne_nil_of_length_pos (size ▸ by decide)
  have more' : second ≠ [] := List.ne_nil_of_length_pos (size' ▸ by decide)
  clear isFirst isSecond
  obtain ⟨isAlive, queued⟩ := @queuedLength_pieces _ exactPool { isAlive := true } rfl _ _
    more more' (size ▸ by decide) (size' ▸ by decide) noLine
  obtain ⟨-, -, -, exact, cutOff⟩ := flooding_cutOff exactPool { isAlive := true }
    [.chunk 0 first] (.chunk 1 second) [.chunk 2 [0x64, 0x0a]]
  have flood : maxInboundRequestLength < first.length + second.length := by
    rw [size, size']
    decide
  rw [← queued] at flood
  have reported := (exact (calls_chunk 1 more' isAlive)).mpr (Or.inr flood)
  obtain ⟨dead, silent, -⟩ := cutOff reported
  have ignored := silent _ List.mem_cons_self
  exact ⟨isAlive, reported, dead, congrArg (fun events => [events]) ignored⟩

end Hypepool.StratumClient
