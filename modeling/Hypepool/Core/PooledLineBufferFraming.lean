import Hypepool.Base.Framing
import Hypepool.Core.PooledLineBuffer

/-!
# `PooledLineBuffer` frames its stream

`receiveChunk` refines `Base.feed`: under the abstraction that keeps only the pending bytes, a
received chunk has the effect and the output of one chunk of a separator-framed stream
(`receiveChunk_refines`).  That chunking cannot be seen then follows from the framing of streams.
-/

namespace Hypepool.PooledLineBuffer

open Base

/-- The byte lines end with. -/
abbrev newline : UInt8 := 0x0a

/-- A segment that starts where its array starts and ends within it. -/
structure Fragment (segment : PooledArraySegment) : Prop where
  offset : segment.offset = 0
  fits : segment.size ≤ segment.array.data.length

theorem Fragment.toArray {segment : PooledArraySegment} (fragment : Fragment segment) :
    segment.toArray = segment.array.data.take segment.size := by
  rw [PooledArraySegment.toArray, fragment.offset, List.drop_zero]

theorem Fragment.length {segment : PooledArraySegment} (fragment : Fragment segment) :
    segment.toArray.length = segment.size := by
  rw [fragment.toArray, List.length_take]
  exact Nat.min_eq_left fragment.fits

/-- The framing event a call's event amounts to, if any. -/
def framed : LineEvent → Option (Framed UInt8)
  | .onNext segment => some (.record segment.toArray)
  | .onError (.incomingData _) => some .refused
  | .onError (.incomingRequest _) => some .overrun
  | _ => none

theorem record_mem_of_onNext {events : List LineEvent} {segment : PooledArraySegment}
    (member : .onNext segment ∈ events) :
    Framed.record segment.toArray ∈ events.filterMap framed :=
  List.mem_filterMap.mpr ⟨_, member, rfl⟩

/-- The queue between two calls: fragments that hold no newline. -/
structure WellFormed (b : PooledLineBuffer) : Prop where
  fragments : ∀ segment ∈ b.recvQueue, Fragment segment
  unterminated : newline ∉ pending b

theorem queuedLength_eq {queue : List PooledArraySegment}
    (fragments : ∀ segment ∈ queue, Fragment segment) :
    queuedLength queue = (queue.flatMap (·.toArray)).length := by
  induction queue with
  | nil => rfl
  | cons segment queue ih =>
      have rest := ih fun s member => fragments s (List.mem_cons_of_mem segment member)
      have head := (fragments segment List.mem_cons_self).length
      rw [queuedLength, rest, List.flatMap_cons, List.length_append, head]

/-! ## What the operations leave behind -/

section Operations

variable {pool : ArrayPool} {b : PooledLineBuffer}

@[simp] theorem run_emit (event : LineEvent) :
    (emit event).run b = .ok () { b with log := b.log ++ [event] } := rfl

@[simp] theorem run_giveBack (array : RentedArray) :
    (giveBack array).run b = .ok () { b with log := b.log ++ [.giveBack array.rental] } := rfl

@[simp] theorem run_rent (size : Nat) :
    (rent pool size).run b =
      .ok (nextArray pool b size)
        { b with rentals := b.rentals + 1, log := b.log ++ [.rent (nextArray pool b size)] } := rfl

@[simp] theorem run_enqueue (segment : PooledArraySegment) :
    (enqueue segment).run b =
      .ok () { b with
        recvQueue := b.recvQueue ++ [segment]
        log := b.log ++ [.enqueue segment.array.rental] } := rfl

@[simp] theorem run_dequeue (segment : PooledArraySegment) (rest : List PooledArraySegment) :
    (dequeue segment rest).run b =
      .ok () { b with recvQueue := rest, log := b.log ++ [.dequeue segment.array.rental] } := rfl

@[simp] theorem run_keep : keep.run b = .ok () { b with keepLease := true } := rfl

/-- The events of copying one queued fragment. -/
def copyEvents (segment : PooledArraySegment) : List LineEvent :=
  [.dequeue segment.array.rental, .giveBack segment.array.rental]

/-- One copy of `copyQueue`: `piece` is written at `offset`. -/
theorem take_written {line piece : Bytes} {offset : Nat} (inside : offset ≤ line.length) :
    (line.take offset ++ piece ++ line.drop (offset + piece.length)).take
      (offset + piece.length) = line.take offset ++ piece := by
  have len : (line.take offset ++ piece).length = offset + piece.length := by
    rw [List.length_append, List.length_take, Nat.min_eq_left inside]
  exact List.take_left' len

theorem drop_written {line piece : Bytes} {offset : Nat} (inside : offset ≤ line.length)
    (more : Nat) :
    (line.take offset ++ piece ++ line.drop (offset + piece.length)).drop
      (offset + piece.length + more) = line.drop (offset + piece.length + more) := by
  have len : (line.take offset ++ piece).length = offset + piece.length := by
    rw [List.length_append, List.length_take, Nat.min_eq_left inside]
  rw [← List.drop_drop, List.drop_left' len, List.drop_drop]

/-- The queue is copied into `line` in order, each fragment given back after its copy. -/
theorem run_copyQueue (b : PooledLineBuffer) {queue : List PooledArraySegment} (line : Bytes)
    (offset : Nat)
    (whole : b.recvQueue = queue) (fragments : ∀ segment ∈ queue, Fragment segment)
    (room : offset + queuedLength queue ≤ line.length) :
    (copyQueue line offset queue).run b =
      .ok (line.take offset ++ queue.flatMap (·.toArray) ++
          line.drop (offset + queuedLength queue), offset + queuedLength queue)
        { b with recvQueue := [], log := b.log ++ queue.flatMap copyEvents } := by
  induction queue generalizing b line offset with
  | nil =>
      cases b
      cases whole
      simp [copyQueue, queuedLength]
  | cons segment queue ih =>
      have fragment := fragments segment List.mem_cons_self
      have later : ∀ s ∈ queue, Fragment s := fun s member =>
        fragments s (List.mem_cons_of_mem segment member)
      have sizes : queuedLength (segment :: queue) = segment.size + queuedLength queue := rfl
      rw [sizes] at room
      have copied : arrayCopy segment.array.data 0 line offset segment.size =
          .ok (line.take offset ++ segment.toArray ++
            line.drop (offset + segment.toArray.length)) := by
        rw [arrayCopy_eq (by rw [Nat.zero_add]; exact fragment.fits) (by omega), List.drop_zero,
          fragment.toArray, ← fragment.toArray, fragment.length]
      have inside : offset ≤ line.length := by omega
      have roomLater : offset + segment.size + queuedLength queue ≤
          (line.take offset ++ segment.toArray ++
            line.drop (offset + segment.toArray.length)).length := by
        simp only [List.length_append, List.length_take, List.length_drop, fragment.length]
        omega
      rw [copyQueue, run_bind_of_ok (run_dequeue segment queue), copied,
        run_bind_of_ok (run_andFinally_of_ok run_liftExcept_ok (run_giveBack segment.array)),
        ih _ _ _ rfl later roomLater, ← fragment.length, take_written inside, drop_written inside,
        sizes, ← fragment.length]
      simp only [List.flatMap_cons, List.append_assoc, copyEvents, Nat.add_assoc, List.cons_append,
        List.nil_append]

/-- The line `assemble` puts together. -/
def assembled (pool : ArrayPool) (b : PooledLineBuffer) (tail : Bytes) : PooledArraySegment :=
  let size := (pending b ++ tail).length
  ⟨⟨b.rentals, pending b ++ tail ++ (pool.stale b.rentals size).drop size⟩, 0, size⟩

theorem assembled_fragment (tail : Bytes) : Fragment (assembled pool b tail) := by
  refine ⟨rfl, ?_⟩
  simp only [assembled, List.length_append]
  omega

@[simp] theorem assembled_toArray (tail : Bytes) :
    (assembled pool b tail).toArray = pending b ++ tail := by
  rw [(assembled_fragment tail).toArray]
  exact List.take_left' rfl

/-- The piece of `buf` is written behind `front`, over the stale rest of the line. -/
theorem run_appendRemaining (b : PooledLineBuffer) {buf : RentedArray} {prevIndex : Nat}
    (front stale : Bytes) {tail : Bytes}
    (slice : (buf.data.drop prevIndex).take tail.length = tail)
    (room : tail.length ≤ stale.length) :
    (appendRemaining buf prevIndex tail.length (front ++ stale) front.length).run b =
      .ok (front ++ tail ++ stale.drop tail.length) b := by
  rw [appendRemaining]
  split
  · have sliceLength := congrArg List.length slice
    rw [List.length_take, List.length_drop] at sliceLength
    rw [arrayCopy_eq (by omega) (by rw [List.length_append]; omega), slice, List.take_left' rfl,
      List.drop_append]
    have rest : front.length + tail.length - front.length = tail.length := by omega
    rw [List.drop_eq_nil_of_le (by omega), rest, List.nil_append, run_liftExcept_ok]
  · have empty : tail = [] := List.length_eq_zero_iff.mp (by omega)
    rw [empty, List.append_nil, List.length_nil, List.drop_zero, EStateM.run_pure]

/-- What `assemble` does for a piece of `buf`, in order. -/
def assembleEvents (pool : ArrayPool) (b : PooledLineBuffer) (tail : Bytes) : List LineEvent :=
  .rent (nextArray pool b (pending b ++ tail).length) :: b.recvQueue.flatMap copyEvents ++
    if (pending b ++ tail).length > 0 then [.onNext (assembled pool b tail)] else []

/-- The buffer after `assemble`. -/
def afterAssemble (pool : ArrayPool) (b : PooledLineBuffer) (tail : Bytes) : PooledLineBuffer :=
  { b with
    recvQueue := []
    rentals := b.rentals + 1
    log := b.log ++ assembleEvents pool b tail }

/-- `assemble` empties the queue and emits what was pending followed by the piece of `buf`. -/
theorem run_assemble (pool : ArrayPool) (b : PooledLineBuffer) (buf : RentedArray)
    {prevIndex : Nat} {tail : Bytes}
    (fragments : ∀ segment ∈ b.recvQueue, Fragment segment)
    (slice : (buf.data.drop prevIndex).take tail.length = tail) :
    (assemble pool buf prevIndex tail.length).run b = .ok () (afterAssemble pool b tail) := by
  have queued : queuedLength b.recvQueue = (pending b).length := queuedLength_eq fragments
  have capacity := pool.capacity b.rentals ((pending b).length + tail.length)
  have gathered := run_copyQueue
    { b with
      rentals := b.rentals + 1
      log := b.log ++ [.rent (nextArray pool b ((pending b).length + tail.length))] }
    (pool.stale b.rentals ((pending b).length + tail.length)) 0 rfl fragments
    (by rw [queued]; omega)
  have whole : b.recvQueue.flatMap (·.toArray) = pending b := rfl
  simp only [List.take_zero, List.nil_append, Nat.zero_add, queued, whole, nextArray] at gathered
  have appended := run_appendRemaining
    { b with
      recvQueue := []
      rentals := b.rentals + 1
      log := b.log ++ [.rent (nextArray pool b ((pending b).length + tail.length))] ++
        b.recvQueue.flatMap copyEvents }
    (pending b)
    ((pool.stale b.rentals ((pending b).length + tail.length)).drop (pending b).length)
    slice (by rw [List.length_drop]; omega)
  rw [List.drop_drop] at appended
  simp only [nextArray] at appended
  have length : (pending b ++ tail).length = (pending b).length + tail.length :=
    List.length_append
  have recorded : b.log ++ assembleEvents pool b tail =
      b.log ++ [.rent (nextArray pool b ((pending b).length + tail.length))] ++
        b.recvQueue.flatMap copyEvents ++
        if (pending b).length + tail.length > 0 then [.onNext (assembled pool b tail)] else [] := by
    simp only [assembleEvents, length, List.append_assoc, List.cons_append, List.nil_append]
  rw [afterAssemble, recorded]
  simp only [assemble, EStateM.run_bind, EStateM.run_get, run_rent, queued, nextArray, gathered,
    appended, assembled, length]
  split
  · exact run_emit _
  · rw [List.append_nil]
    rfl

/-- `store` queues the piece of the chunk after the last newline: a copy of it, or `buf` itself
when that piece is the whole chunk. -/
theorem run_store (pool : ArrayPool) (b : PooledLineBuffer) {buf : RentedArray}
    {chunk tail : Bytes} {prevIndex remaining : Nat}
    (data : buf.data = chunk ++ tail) (position : prevIndex + remaining = chunk.length)
    (more : 0 < remaining) :
    ∃ fragment rentals keepLease events,
      (store pool buf chunk.length prevIndex remaining).run b =
        .ok () { b with
          recvQueue := b.recvQueue ++ [fragment]
          rentals := rentals
          keepLease := keepLease
          log := b.log ++ events } ∧
      Fragment fragment ∧ fragment.toArray = chunk.drop prevIndex ∧
      (fragment.array.rental = b.rentals ∧ rentals = b.rentals + 1 ∧ keepLease = b.keepLease ∧
          events = [.rent (nextArray pool b remaining), .enqueue fragment.array.rental] ∨
        fragment.array = buf ∧ rentals = b.rentals ∧ keepLease = true ∧
          events = [.enqueue fragment.array.rental]) := by
  have rest : (chunk.drop prevIndex).length = remaining := by
    rw [List.length_drop]; omega
  have size : chunk.length - prevIndex = remaining := by omega
  rw [store]
  split
  · have slice : (buf.data.drop prevIndex).take remaining = chunk.drop prevIndex := by
      rw [data, List.drop_append_of_le_length (by omega)]
      exact List.take_left' rest
    have capacity := pool.capacity b.rentals remaining
    have copied : arrayCopy buf.data prevIndex (pool.stale b.rentals remaining) 0 remaining =
        .ok (chunk.drop prevIndex ++ (pool.stale b.rentals remaining).drop remaining) := by
      rw [arrayCopy_eq (by rw [data, List.length_append]; omega) (by omega), slice, List.take_zero,
        List.nil_append, Nat.zero_add]
    have fragment : Fragment ⟨⟨b.rentals,
        chunk.drop prevIndex ++ (pool.stale b.rentals remaining).drop remaining⟩, 0,
        remaining⟩ := ⟨rfl, by simp only [List.length_append, rest]; omega⟩
    refine ⟨_, b.rentals + 1, b.keepLease,
      [.rent (nextArray pool b remaining), .enqueue b.rentals], ?_, fragment, ?_,
      Or.inl ⟨rfl, rfl, rfl, rfl⟩⟩
    · simp only [size, gt_iff_lt, more, if_true, EStateM.run_bind, run_rent, nextArray, copied,
        run_liftExcept_ok, run_enqueue, List.append_assoc, List.cons_append, List.nil_append]
    · rw [fragment.toArray]
      exact List.take_left' rest
  · rename_i start
    have start : prevIndex = 0 := not_not.mp start
    have fragment : Fragment ⟨buf, 0, remaining⟩ :=
      ⟨rfl, by simp only [data, List.length_append]; omega⟩
    refine ⟨_, b.rentals, true, [.enqueue buf.rental], ?_, fragment, ?_,
      Or.inr ⟨rfl, rfl, rfl, rfl⟩⟩
    · simp only [EStateM.run_bind, run_enqueue, run_keep]
    · rw [fragment.toArray, start, List.drop_zero]
      simp only [data]
      exact List.take_left' (by omega)

/-- The limit's verdict on a length, for the framing of the stream. -/
def exceeds (maxLength : Option Int) (size : Nat) : Bool := (exceeded maxLength size).isSome

theorem run_preventFlooding (b : PooledLineBuffer)
    (fragments : ∀ segment ∈ b.recvQueue, Fragment segment) :
    ∃ events, preventFlooding.run b = .ok () { b with log := b.log ++ events } ∧
      events.filterMap framed =
        (if exceeds b.maxLength (pending b).length then [.overrun] else []) ∧
      ∀ event ∈ events, ∃ exception, event = .onError exception := by
  have queued : queuedLength b.recvQueue = (pending b).length := queuedLength_eq fragments
  simp only [preventFlooding, EStateM.run_bind, EStateM.run_get, queued]
  split
  · rename_i limit verdict
    have yes : exceeds b.maxLength (pending b).length = true := by rw [exceeds, verdict]; rfl
    exact ⟨[.onError (.incomingRequest limit)], rfl, by rw [if_pos yes]; rfl,
      fun event member => ⟨_, List.mem_singleton.mp member⟩⟩
  · rename_i verdict
    have no : ¬ exceeds b.maxLength (pending b).length = true := by rw [exceeds, verdict]; decide
    exact ⟨[], by rw [List.append_nil]; rfl, by rw [if_neg no]; rfl,
      fun event member => nomatch member⟩

end Operations

/-! ## The search for a newline in the received array -/

section Search

variable {buf : RentedArray} {chunk tail : Bytes} {prevIndex : Nat}

/-- The search runs over the whole array, but finds nothing behind the received bytes. -/
theorem newline_not_found (data : buf.data = chunk ++ tail) (inside : prevIndex ≤ chunk.length)
    (absent : indexOf buf.data newline prevIndex (buf.data.length - prevIndex) = none) :
    newline ∉ chunk.drop prevIndex := by
  have length : buf.data.length = chunk.length + tail.length := by
    rw [data, List.length_append]
  have search := (indexOf_eq_none (by omega)).mp absent
  rw [List.take_of_length_le (Nat.le_of_eq List.length_drop), data,
    List.drop_append_of_le_length inside] at search
  exact fun member => search (List.mem_append_left tail member)

theorem newline_found {index : Nat} (data : buf.data = chunk ++ tail) (clean : newline ∉ tail)
    (inside : prevIndex ≤ chunk.length)
    (found : indexOf buf.data newline prevIndex (buf.data.length - prevIndex) = some index) :
    prevIndex ≤ index ∧ index < chunk.length ∧
      ∃ piece, piece.length = index - prevIndex ∧
        (buf.data.drop prevIndex).take piece.length = piece ∧ newline ∉ piece ∧
        chunk.drop prevIndex = piece ++ newline :: chunk.drop (index + 1) := by
  have length : buf.data.length = chunk.length + tail.length := by
    rw [data, List.length_append]
  obtain ⟨lower, upper, hit, before⟩ := indexOf_eq_some (by omega) found
  have received : index < chunk.length := by
    apply Nat.lt_of_not_le
    intro behind
    rw [data, List.getElem?_append_right behind] at hit
    exact clean (List.mem_of_getElem? hit)
  have here : chunk[index] = newline := by
    rw [data, List.getElem?_append_left received, List.getElem?_eq_getElem received] at hit
    exact Option.some.inj hit
  have piece : (buf.data.drop prevIndex).take (index - prevIndex) =
      (chunk.drop prevIndex).take (index - prevIndex) := by
    rw [data, List.drop_append_of_le_length inside,
      List.take_append_of_le_length (by rw [List.length_drop]; omega)]
  have pieceLength : ((chunk.drop prevIndex).take (index - prevIndex)).length =
      index - prevIndex := by
    rw [List.length_take, List.length_drop]; omega
  refine ⟨lower, received, (chunk.drop prevIndex).take (index - prevIndex), pieceLength, ?_, ?_, ?_⟩
  · rw [pieceLength, piece]
  · rwa [piece] at before
  · have rest : (chunk.drop prevIndex).drop (index - prevIndex) =
        newline :: chunk.drop (index + 1) := by
      rw [List.drop_drop, Nat.add_sub_cancel' lower, List.drop_eq_getElem_cons received, here]
    rw [← rest, List.take_append_drop]

end Search

/-! ## The loop and the call -/

/-- What a call leaves behind that had `stream` in front of it: the queue holds its remainder, the
events since `b` are its records and, last, the verdict on that remainder. -/
structure Framing (b : PooledLineBuffer) (stream : Bytes) (b' : PooledLineBuffer) : Prop where
  fragments : ∀ segment ∈ b'.recvQueue, Fragment segment
  queued : pending b' = remainder newline stream
  maxLength : b'.maxLength = b.maxLength
  events : ∃ events, b'.log = b.log ++ events ∧
    (∀ segment, .onNext segment ∈ events → segment.toArray.length = segment.size) ∧
    events.filterMap framed =
      ((terminated newline stream).filter (!·.isEmpty)).map .record ++
        if !(remainder newline stream).isEmpty &&
            exceeds b.maxLength (remainder newline stream).length
        then [.overrun] else []

/-- A line completed in front of the rest of the stream. -/
theorem Framing.after_line {b b' : PooledLineBuffer} (b₁ : PooledLineBuffer) {line rest : Bytes}
    (first : List LineEvent) (free : newline ∉ line) (events : b₁.log = b.log ++ first)
    (sized : ∀ segment, .onNext segment ∈ first → segment.toArray.length = segment.size)
    (emitted : first.filterMap framed = if line.isEmpty then [] else [.record line])
    (limit : b₁.maxLength = b.maxLength) (framing : Framing b₁ rest b') :
    Framing b (line ++ newline :: rest) b' := by
  obtain ⟨later, laterLog, laterSized, laterEmitted⟩ := framing.events
  refine ⟨framing.fragments, ?_, framing.maxLength.trans limit, first ++ later, ?_, ?_, ?_⟩
  · rw [framing.queued, remainder_append_cons]
  · rw [laterLog, events, List.append_assoc]
  · intro segment member
    rcases List.mem_append.mp member with inFirst | inLater
    · exact sized segment inFirst
    · exact laterSized segment inLater
  · rw [List.filterMap_append, emitted, laterEmitted, terminated_append_cons free,
      remainder_append_cons, limit]
    cases line <;> rfl

/-- A stream without a newline, queued as a whole. -/
theorem Framing.of_unterminated {b b' : PooledLineBuffer} {stream : Bytes}
    (events : List LineEvent) (free : newline ∉ stream) (more : stream ≠ [])
    (fragments : ∀ segment ∈ b'.recvQueue, Fragment segment)
    (queued : pending b' = stream) (limit : b'.maxLength = b.maxLength)
    (log : b'.log = b.log ++ events)
    (verdict : events.filterMap framed =
      if exceeds b.maxLength stream.length then [.overrun] else []) :
    Framing b stream b' := by
  have silent : ∀ segment, .onNext segment ∉ events := by
    intro segment member
    have framing := record_mem_of_onNext member
    rw [verdict] at framing
    split at framing
    · cases List.mem_singleton.mp framing
    · cases framing
  refine ⟨fragments, by rw [queued, remainder_of_not_mem free], limit, events, log,
    fun segment member => (silent segment member).elim, ?_⟩
  have nonempty : (!stream.isEmpty) = true := by
    cases stream with
    | nil => exact (more rfl).elim
    | cons => rfl
  rw [terminated_of_not_mem free, remainder_of_not_mem free, verdict, nonempty, Bool.true_and]
  rfl

/-- Nothing to frame and nothing queued. -/
theorem Framing.of_nothing {b : PooledLineBuffer} (empty : b.recvQueue = []) : Framing b [] b := by
  refine ⟨?_, ?_, rfl, [], (List.append_nil _).symm, fun _ member => (nomatch member), ?_⟩
  · rw [empty]
    exact fun _ member => (nomatch member)
  · rw [pending, empty, List.flatMap_nil, remainder_nil]
  · rw [terminated_nil, remainder_nil]
    rfl

section Receive

variable {pool : ArrayPool} {b : PooledLineBuffer} {buf : RentedArray} {chunk tail : Bytes}
  {prevIndex remaining index : Nat}

/-- The turn that finds no newline. -/
theorem run_store_preventFlooding (data : buf.data = chunk ++ tail)
    (position : prevIndex + remaining = chunk.length) (more : 0 < remaining) (wf : WellFormed b)
    (free : newline ∉ chunk.drop prevIndex) :
    ∃ b', (do store pool buf chunk.length prevIndex remaining; preventFlooding : LineM Unit).run b =
        .ok () b' ∧ Framing b (pending b ++ chunk.drop prevIndex) b' := by
  obtain ⟨fragment, rentals, keepLease, stored, storeRun, isFragment, content, shape⟩ :=
    run_store pool b data position more
  have silent : stored.filterMap framed = [] := by
    rcases shape with ⟨_, _, _, rfl⟩ | ⟨_, _, _, rfl⟩
    · rfl
    · rfl
  have fragments : ∀ segment ∈ b.recvQueue ++ [fragment], Fragment segment := by
    intro segment member
    rcases List.mem_append.mp member with queued | new
    · exact wf.fragments segment queued
    · exact List.mem_singleton.mp new ▸ isFragment
  have queued : (b.recvQueue ++ [fragment]).flatMap (·.toArray) =
      pending b ++ chunk.drop prevIndex := by
    rw [List.flatMap_append, List.flatMap_singleton, content, pending]
  obtain ⟨flooded, floodRun, verdict, _⟩ := run_preventFlooding
    { b with
      recvQueue := b.recvQueue ++ [fragment]
      rentals := rentals
      keepLease := keepLease
      log := b.log ++ stored } fragments
  have freeStream : newline ∉ pending b ++ chunk.drop prevIndex := fun member =>
    (List.mem_append.mp member).elim wf.unterminated free
  have more : pending b ++ chunk.drop prevIndex ≠ [] := by
    intro empty
    have length := congrArg List.length empty
    rw [List.length_append, List.length_drop, List.length_nil] at length
    omega
  refine ⟨_, (run_bind_of_ok storeRun).trans floodRun, Framing.of_unterminated
    (stored ++ flooded) freeStream more fragments queued rfl (List.append_assoc _ _ _) ?_⟩
  rw [List.filterMap_append, silent, List.nil_append, verdict, ← queued]
  rfl

/-- The fast path: the newline is the last byte received and nothing is queued. -/
theorem framing_fastPath {piece : Bytes} (size : piece.length = index - prevIndex)
    (slice : (buf.data.drop prevIndex).take piece.length = piece) (free : newline ∉ piece)
    (empty : b.recvQueue = []) :
    ∃ b', (if index - prevIndex > 0 then do
          emit (.onNext ⟨buf, prevIndex, index - prevIndex⟩)
          keep
        else return () : LineM Unit).run b = .ok () b' ∧
      Framing b (piece ++ [newline]) b' := by
  rw [← size]
  split
  · rename_i more
    have content : PooledArraySegment.toArray ⟨buf, prevIndex, piece.length⟩ = piece := slice
    have nonempty : piece.isEmpty = false :=
      List.isEmpty_eq_false_iff.mpr (List.ne_nil_of_length_pos more)
    refine ⟨{ b with keepLease := true, log := b.log ++ [.onNext ⟨buf, prevIndex, piece.length⟩] },
      rfl, ?_⟩
    refine Framing.after_line
      { b with
        keepLease := true
        log := b.log ++ [.onNext ⟨buf, prevIndex, piece.length⟩] }
      _ free rfl ?_ ?_ rfl (Framing.of_nothing empty)
    · intro segment member
      cases List.mem_singleton.mp member
      rw [content]
    · simp only [List.filterMap_cons, framed, content, List.filterMap_nil, nonempty]
      rfl
  · have none : piece = [] := List.length_eq_zero_iff.mp (by omega)
    refine ⟨b, rfl, ?_⟩
    refine Framing.after_line b [] free (List.append_nil _).symm
      (fun _ member => (nomatch member)) ?_ rfl (Framing.of_nothing empty)
    rw [none]
    rfl

/-- The slow path: a line is assembled, and the rest of the chunk framed from an empty queue. -/
theorem Framing.after_assemble {piece rest : Bytes} {b' : PooledLineBuffer}
    (free : newline ∉ pending b ++ piece)
    (framing : Framing (afterAssemble pool b piece) rest b') :
    Framing b (pending b ++ piece ++ newline :: rest) b' := by
  have copies : ∀ segment, .onNext segment ∉ b.recvQueue.flatMap copyEvents := by
    intro segment member
    obtain ⟨fragment, _, event⟩ := List.mem_flatMap.mp member
    simp [copyEvents] at event
  have silent : (b.recvQueue.flatMap copyEvents).filterMap framed = [] := by
    induction b.recvQueue with
    | nil => rfl
    | cons segment queue ih =>
        rw [List.flatMap_cons, List.filterMap_append, ih]
        rfl
  refine Framing.after_line (afterAssemble pool b piece) (assembleEvents pool b piece) free rfl
    ?_ ?_ rfl framing
  · intro segment member
    unfold assembleEvents at member
    rcases List.mem_append.mp member with early | emitted
    · rcases List.mem_cons.mp early with rent | copy
      · cases rent
      · exact (copies segment copy).elim
    · split at emitted
      · cases List.mem_singleton.mp emitted
        exact (assembled_fragment piece).length
      · cases emitted
  · rw [assembleEvents, List.filterMap_append, List.filterMap_cons_none rfl, silent,
      List.nil_append]
    split
    · rename_i more
      have nonempty : (pending b ++ piece).isEmpty = false := by
        exact List.isEmpty_eq_false_iff.mpr (List.ne_nil_of_length_pos more)
      rw [nonempty, List.filterMap_cons, framed, assembled_toArray]
      rfl
    · have none : pending b ++ piece = [] := List.length_eq_zero_iff.mp (by omega)
      rw [none]
      rfl

/-- The `while` loop.  The induction is on `remaining`; a turn either ends the loop or assembles the
line up to the next newline and leaves the queue empty. -/
theorem run_receiveLoop (pool : ArrayPool) (b : PooledLineBuffer) (prevIndex : Nat)
    (data : buf.data = chunk ++ tail) (clean : newline ∉ tail)
    (position : prevIndex + remaining = chunk.length) (wf : WellFormed b)
    (fresh : remaining = 0 → b.recvQueue = []) :
    ∃ b', (receiveLoop pool false buf chunk.length prevIndex remaining).run b = .ok () b' ∧
      Framing b (pending b ++ chunk.drop prevIndex) b' := by
  induction remaining using Nat.strongRecOn generalizing prevIndex b with
  | ind remaining ih =>
      rw [receiveLoop]
      split
      · rename_i more
        rw [run_bind_of_ok (EStateM.run_get b)]
        cases search : indexOf buf.data newline prevIndex (buf.data.length - prevIndex) with
        | none =>
            exact run_store_preventFlooding data position more wf
              (newline_not_found data (by omega) search)
        | some index =>
            obtain ⟨lower, received, piece, pieceLength, slice, free, rest⟩ :=
              newline_found data clean (by omega) search
            have freeLine : newline ∉ pending b ++ piece := fun member =>
              (List.mem_append.mp member).elim wf.unterminated free
            simp only
            split
            · rename_i fast
              have nothing : pending b ++ chunk.drop prevIndex = piece ++ [newline] := by
                rw [pending, fast.2, List.flatMap_nil, List.nil_append, rest,
                  List.drop_of_length_le (by omega)]
              rw [nothing]
              exact framing_fastPath pieceLength slice free fast.2
            · have turn := run_assemble pool b buf wf.fragments slice
              rw [← pieceLength]
              rw [run_bind_of_ok turn]
              obtain ⟨b', run, framing⟩ := ih (remaining - (piece.length + 1)) (by omega)
                (afterAssemble pool b piece) (index + 1) (by omega)
                ⟨fun _ member => (nomatch member), List.not_mem_nil⟩ (fun _ => rfl)
              refine ⟨b', run, ?_⟩
              rw [rest, ← List.append_assoc]
              exact Framing.after_assemble freeLine framing
      · have done : remaining = 0 := by omega
        have nothing : pending b ++ chunk.drop prevIndex = [] := by
          rw [pending, fresh done, List.flatMap_nil, List.nil_append,
            List.drop_of_length_le (by omega)]
        rw [nothing]
        exact ⟨b, rfl, Framing.of_nothing (fresh done)⟩

/-- `readBuffer` finds the rest of the rented array cleared. -/
theorem readBytes_cleared {data : Bytes} (capacity : chunk.length ≤ data.length) :
    ∃ tail, newline ∉ tail ∧
      readBytes chunk
        (if data.length > chunk.length
          then arrayClear data chunk.length (data.length - chunk.length) else data)
        chunk.length = .ok (chunk ++ tail) := by
  have copied : ∀ cleared : Bytes, chunk.length ≤ cleared.length →
      readBytes chunk cleared chunk.length = .ok (chunk ++ cleared.drop chunk.length) := by
    intro cleared room
    rw [readBytes, arrayCopy_eq (by omega) (by omega), List.take_zero, List.drop_zero,
      List.take_length, Nat.zero_add, List.nil_append]
  split
  · rename_i larger
    have whole : chunk.length + (data.length - chunk.length) = data.length := by omega
    refine ⟨List.replicate (data.length - chunk.length) 0, ?_, ?_⟩
    · intro member
      exact absurd (List.eq_of_mem_replicate member) (by decide)
    · rw [copied _ (by simp only [arrayClear, List.length_append, List.length_take,
        List.length_replicate]; omega), arrayClear, whole, List.drop_length, List.append_nil,
        List.drop_left' (by rw [List.length_take]; omega)]
  · refine ⟨[], List.not_mem_nil, ?_⟩
    rw [copied data capacity, List.drop_eq_nil_of_le (by omega)]

/-- What one call does, seen as a chunk of a framed stream. -/
structure Received (b : PooledLineBuffer) (chunk : Bytes) (b' : PooledLineBuffer) : Prop where
  wellFormed : WellFormed b'
  maxLength : b'.maxLength = b.maxLength
  queued : pending b' = (feed (exceeds b.maxLength) newline (pending b) chunk).2
  events : ∃ events, b'.log = b.log ++ events ∧
    (∀ segment, .onNext segment ∈ events → segment.toArray.length = segment.size) ∧
    events.filterMap framed = (feed (exceeds b.maxLength) newline (pending b) chunk).1

/-- A call that keeps the queue and reports no line. -/
theorem Received.of_unchanged {events : List LineEvent} (wf : WellFormed b)
    (unchanged : (feed (exceeds b.maxLength) newline (pending b) chunk).2 = pending b)
    (silent : ∀ segment, .onNext segment ∉ events)
    (reported : events.filterMap framed =
      (feed (exceeds b.maxLength) newline (pending b) chunk).1) :
    Received b chunk { b with log := b.log ++ events } :=
  ⟨⟨wf.fragments, wf.unterminated⟩, rfl, unchanged.symm, events, rfl,
    fun segment member => (silent segment member).elim, reported⟩

/-- The buffer when an array of the size is rented and the `try` block begins. -/
def started (pool : ArrayPool) (b : PooledLineBuffer) (size : Nat) : PooledLineBuffer :=
  { b with
    rentals := b.rentals + 1
    log := b.log ++ [.rent (nextArray pool b size)]
    keepLease := false }

/-- A call whose chunk is accepted, from what its loop did and its `finally` block. -/
theorem Received.of_framing {b₂ b' : PooledLineBuffer} {last : List LineEvent}
    (nonempty : chunk ≠ []) (accepted : exceeds b.maxLength chunk.length = false)
    (framing : Framing (started pool b chunk.length) (pending b ++ chunk) b₂)
    (keptQueue : b'.recvQueue = b₂.recvQueue) (keptLimit : b'.maxLength = b₂.maxLength)
    (finished : b'.log = b₂.log ++ last) (silent : last.filterMap framed = []) :
    Received b chunk b' := by
  have fed : feed (exceeds b.maxLength) newline (pending b) chunk = _ :=
    feed_accepted nonempty accepted
  have queued : pending b' = remainder newline (pending b ++ chunk) := by
    rw [pending, keptQueue]
    exact framing.queued
  obtain ⟨events, log, sized, reported⟩ := framing.events
  refine ⟨⟨keptQueue ▸ framing.fragments, ?_⟩, keptLimit.trans framing.maxLength, ?_,
    .rent (nextArray pool b chunk.length) :: events ++ last, ?_, ?_, ?_⟩
  · rw [queued]
    exact not_mem_remainder newline _
  · rw [fed, queued]
  · rw [finished, log, started]
    simp only [List.append_assoc, List.cons_append, List.nil_append]
  · intro segment member
    rcases List.mem_append.mp member with early | late
    · rcases List.mem_cons.mp early with rent | loop
      · cases rent
      · exact sized segment loop
    · have framing := record_mem_of_onNext late
      rw [silent] at framing
      cases framing
  · rw [fed, List.filterMap_append, silent, List.append_nil, List.filterMap_cons_none rfl, reported]
    rfl

/-- Every call returns, and has the effect of one chunk on the framing of the stream. -/
theorem run_receive (pool : ArrayPool) (chunk : Bytes) (wf : WellFormed b) :
    ∃ b', (receive pool chunk chunk.length readBytes).run b = .ok () b' ∧ Received b chunk b' := by
  rw [receive, run_bind_of_ok (EStateM.run_get b)]
  split
  · rename_i nothing
    have none : chunk = [] := List.length_eq_zero_iff.mp nothing
    have unchanged : Received b chunk { b with log := b.log ++ [] } := by
      refine Received.of_unchanged wf ?_ (fun _ member => (nomatch member)) ?_
      · rw [none]; rfl
      · rw [none]; rfl
    rw [List.append_nil] at unchanged
    exact ⟨b, rfl, unchanged⟩
  rename_i some
  have nonempty : chunk ≠ [] := fun none => some (List.length_eq_zero_iff.mpr none)
  split
  · rename_i limit verdict
    have refused : feed (exceeds b.maxLength) newline (pending b) chunk = ([.refused], pending b) :=
      feed_refused nonempty (by rw [exceeds, verdict]; rfl)
    refine ⟨_, run_emit _, Received.of_unchanged wf (by rw [refused]) ?_ (by rw [refused]; rfl)⟩
    intro segment member
    cases List.mem_singleton.mp member
  · rename_i verdict
    have accepted : exceeds b.maxLength chunk.length = false := by rw [exceeds, verdict]; rfl
    obtain ⟨tail, clean, read⟩ :=
      readBytes_cleared (pool.capacity b.rentals chunk.length)
    have position : 0 + chunk.length = chunk.length := Nat.zero_add _
    have startedWf : WellFormed (started pool b chunk.length) := ⟨wf.fragments, wf.unterminated⟩
    obtain ⟨b₂, loop, framing⟩ := run_receiveLoop pool (started pool b chunk.length) 0
      (show (RentedArray.mk b.rentals (chunk ++ tail)).data = chunk ++ tail from rfl) clean position
      startedWf (fun none => (some none).elim)
    have body : (receiveInto pool chunk chunk.length readBytes false
        (nextArray pool b chunk.length)).run (started pool b chunk.length) = .ok () b₂ := by
      rw [receiveInto, nextArray, read, run_bind_of_ok run_liftExcept_ok]
      exact loop
    rw [run_bind_of_ok (run_rent _), run_bind_of_ok (EStateM.run_modify _ _)]
    cases kept : b₂.keepLease with
    | true =>
        refine ⟨b₂, run_andFinally_of_ok body ?_, Received.of_framing nonempty accepted framing rfl
          rfl (List.append_nil _).symm rfl⟩
        rw [run_bind_of_ok (EStateM.run_get b₂), kept]
        rfl
    | false =>
        refine ⟨{ b₂ with log := b₂.log ++ [.giveBack b.rentals] }, run_andFinally_of_ok body ?_,
          Received.of_framing nonempty accepted framing rfl rfl rfl rfl⟩
        rw [run_bind_of_ok (EStateM.run_get b₂), if_neg (by rw [kept]; decide)]
        rfl

end Receive

/-! ## Runs over a received stream -/

section Stream

variable (pool : ArrayPool) {b : PooledLineBuffer}

/-- The buffer `b` as a receiver of a framed stream: a limit and the pending bytes. -/
structure Receives (maxLength : Option Int) (b : PooledLineBuffer) (waiting : Bytes) : Prop where
  wellFormed : WellFormed b
  maxLength : b.maxLength = maxLength
  queued : pending b = waiting

/-- A new buffer. -/
theorem Receives.empty (maxLength : Option Int) :
    Receives maxLength { maxLength := maxLength } [] :=
  ⟨⟨fun _ member => (nomatch member), List.not_mem_nil⟩, rfl, rfl⟩

/-- The call on a chunk, as `receiveChunk` records it. -/
theorem receiveChunk_received (wf : WellFormed b) (chunk : Bytes) :
    Received { b with log := [] } chunk (receiveChunk pool b chunk).2 ∧
      (receiveChunk pool b chunk).1 = (receiveChunk pool b chunk).2.log := by
  have cleared : WellFormed { b with log := [] } := ⟨wf.fragments, wf.unterminated⟩
  obtain ⟨b', run, received⟩ := run_receive pool chunk cleared
  have after : (receiveChunk pool b chunk).2 = b' := stateAfter_of_ok run
  exact ⟨after ▸ received, rfl⟩

/-- `receiveChunk` refines one chunk of a framed stream. -/
theorem receiveChunk_refines (chunk : Bytes) {maxLength : Option Int} {waiting : Bytes}
    (receives : Receives maxLength b waiting) :
    (receiveChunk pool b chunk).1.filterMap framed =
        (feed (exceeds maxLength) newline waiting chunk).1 ∧
      Receives maxLength (receiveChunk pool b chunk).2
        (feed (exceeds maxLength) newline waiting chunk).2 := by
  obtain ⟨wf, rfl, rfl⟩ := receives
  obtain ⟨received, log⟩ := receiveChunk_received pool wf chunk
  obtain ⟨events, recorded, _, reported⟩ := received.events
  rw [List.nil_append] at recorded
  rw [log, recorded]
  exact ⟨reported, received.wellFormed, received.maxLength, received.queued⟩

/-- A run of calls refines the framing of the received stream. -/
theorem receiveChunks_refine {maxLength : Option Int} {waiting : Bytes}
    (receives : Receives maxLength b waiting) (chunks : List Bytes) :
    (outputs (receiveChunk pool) b chunks).map (·.filterMap framed) =
        outputs (feed (exceeds maxLength) newline) waiting chunks ∧
      Receives maxLength (finalState (receiveChunk pool) b chunks)
        (finalState (feed (exceeds maxLength) newline) waiting chunks) :=
  simulation (R := Receives maxLength)
    (fun _ _ chunk related => receiveChunk_refines pool chunk related) receives

theorem linesOf_eq (log : List LineEvent) : linesOf log = records (log.filterMap framed) := by
  rw [linesOf, records, List.filterMap_filterMap]
  congr 1
  funext event
  cases event with
  | onError exception => cases exception <;> rfl
  | _ => rfl

/-- **The chunking of the stream cannot be seen.**  Whatever arrays the pool rents out, every call
returns, the lines delivered are the non-empty lines of the concatenated stream, and what waits in
the queue is its remainder; so two chunkings of one stream end alike. -/
theorem receive_frames_stream (chunks : List Bytes) :
    Along (receiveChunk pool)
        (fun b chunk => ∃ b', (receive pool chunk chunk.length readBytes).run b = .ok () b')
        {} chunks ∧
      (outputs (receiveChunk pool) {} chunks).flatMap linesOf =
        (terminated newline chunks.flatten).filter (!·.isEmpty) ∧
      pending (finalState (receiveChunk pool) {} chunks) = remainder newline chunks.flatten ∧
      ∀ (pool' : ArrayPool) (chunks' : List Bytes), chunks'.flatten = chunks.flatten →
        (outputs (receiveChunk pool') {} chunks').flatMap linesOf =
            (outputs (receiveChunk pool) {} chunks).flatMap linesOf ∧
          pending (finalState (receiveChunk pool') {} chunks') =
            pending (finalState (receiveChunk pool) {} chunks) := by
  have delivered : ∀ (pool : ArrayPool) (chunks : List Bytes),
      (outputs (receiveChunk pool) {} chunks).flatMap linesOf =
          (terminated newline chunks.flatten).filter (!·.isEmpty) ∧
        pending (finalState (receiveChunk pool) {} chunks) =
          remainder newline chunks.flatten := by
    intro pool chunks
    have accepted : ∀ chunk ∈ chunks, exceeds none chunk.length = false := fun _ _ => rfl
    obtain ⟨framing, receives⟩ := receiveChunks_refine pool (Receives.empty none) chunks
    have emitted : (outputs (feed (exceeds none) newline) [] chunks).flatMap records = _ :=
      feed_outputs List.not_mem_nil accepted
    have kept : finalState (feed (exceeds none) newline) [] chunks = _ :=
      feed_finalState List.not_mem_nil accepted
    rw [List.nil_append] at emitted kept
    refine ⟨?_, receives.queued.trans kept⟩
    rw [← emitted, ← framing, List.flatMap_map]
    exact congrArg List.flatten (List.map_congr_left fun log _ => linesOf_eq log)
  refine ⟨?_, (delivered pool chunks).1, (delivered pool chunks).2, ?_⟩
  · exact along_of_invariant WellFormed
      (fun b chunk wf => (receiveChunk_received pool wf chunk).1.wellFormed)
      (fun b chunk wf => (run_receive pool chunk wf).imp fun _ call => call.1)
      (Receives.empty none).wellFormed
  · intro pool' chunks' same
    rw [(delivered pool' chunks').1, (delivered pool' chunks').2, same, (delivered pool chunks).1,
      (delivered pool chunks).2]
    exact ⟨rfl, rfl⟩

end Stream

end Hypepool.PooledLineBuffer
