import Hypepool.Common.Buffers

/-!
# `PooledLineBuffer`

The receiver that cuts the inbound byte stream of a connection into lines.  `receive` follows
`PooledLineBuffer.Receive` statement by statement; what it does to the array pool, to its queue and
to its callers is recorded in `log`, in order.

Sizes are natural numbers: a pending line too long for the source's `int` has no array it could be
assembled in.  The contents of an array are values: every array is written before it is queued or
passed on, and not written again while the buffer holds it.
-/

namespace Hypepool

/-- The two exceptions handed to `onError`. -/
inductive InvalidDataException
  | incomingData (maxLength : Int)
  | incomingRequest (maxLength : Int)
  deriving DecidableEq

def InvalidDataException.message : InvalidDataException → String
  | .incomingData maxLength => s!"Incoming data exceeds maximum of {maxLength}"
  | .incomingRequest maxLength => s!"Incoming request size exceeds maximum of {maxLength}"

/-- What a call does to the array pool, to `_recvQueue` and to its callbacks. -/
inductive LineEvent
  | rent (array : RentedArray)
  | giveBack (rental : Nat)
  | enqueue (rental : Nat)
  | dequeue (rental : Nat)
  | onNext (segment : PooledArraySegment)
  | onError (exception : InvalidDataException)
  deriving DecidableEq

/-- The fields of a `PooledLineBuffer`, the number of arrays it rented so far, and the local
`keepLease` of the running call. -/
structure PooledLineBuffer where
  maxLength : Option Int := none
  recvQueue : List PooledArraySegment := []
  rentals : Nat := 0
  keepLease : Bool := false
  log : List LineEvent := []

abbrev LineM := EStateM NetException PooledLineBuffer

namespace PooledLineBuffer

def emit (event : LineEvent) : LineM Unit :=
  modify fun b => { b with log := b.log ++ [event] }

/-- The array that `Rent(size)` hands out next. -/
def nextArray (pool : ArrayPool) (b : PooledLineBuffer) (size : Nat) : RentedArray :=
  ⟨b.rentals, pool.stale b.rentals size⟩

/-- `ArrayPool<byte>.Shared.Rent`. -/
def rent (pool : ArrayPool) (size : Nat) : LineM RentedArray := do
  let b ← get
  let array := nextArray pool b size
  set { b with rentals := b.rentals + 1, log := b.log ++ [LineEvent.rent array] }
  return array

/-- `ArrayPool<byte>.Shared.Return`. -/
def giveBack (array : RentedArray) : LineM Unit := emit (.giveBack array.rental)

/-- `_recvQueue.Enqueue`. -/
def enqueue (segment : PooledArraySegment) : LineM Unit :=
  modify fun b => { b with
    recvQueue := b.recvQueue ++ [segment]
    log := b.log ++ [LineEvent.enqueue segment.array.rental] }

/-- `_recvQueue.TryDequeue` when the queue holds `segment` and then `rest`. -/
def dequeue (segment : PooledArraySegment) (rest : List PooledArraySegment) : LineM Unit :=
  modify fun b => { b with
    recvQueue := rest
    log := b.log ++ [LineEvent.dequeue segment.array.rental] }

/-- `_recvQueue.Sum(x => x.Size)`. -/
def queuedLength : List PooledArraySegment → Nat
  | [] => 0
  | segment :: rest => segment.size + queuedLength rest

/-- `_maxLength.HasValue && size > _maxLength`, with the limit that is exceeded. -/
def exceeded (maxLength : Option Int) (size : Nat) : Option Int :=
  maxLength.filter fun limit => decide (limit < size)

def keep : LineM Unit := modify fun b => { b with keepLease := true }

/-- The loop that copies the queue into `line`; `using` gives every fragment back after its
copy. -/
def copyQueue (line : Bytes) (offset : Nat) : List PooledArraySegment → LineM (Bytes × Nat)
  | [] => return (line, offset)
  | segment :: rest => do
      dequeue segment rest
      let line ← Base.andFinally
        (Base.liftExcept (arrayCopy segment.array.data 0 line offset segment.size))
        (giveBack segment.array)
      copyQueue line (offset + segment.size) rest

/-- Append the `segmentLength` bytes of `buf` from `prevIndex` on to the line at `offset`. -/
def appendRemaining (buf : RentedArray) (prevIndex segmentLength : Nat) (line : Bytes)
    (offset : Nat) : LineM Bytes :=
  if segmentLength > 0 then
    Base.liftExcept (arrayCopy buf.data prevIndex line offset segmentLength)
  else return line

/-- Assemble the queue and a piece of `buf` into one line, and emit it unless it is empty. -/
def assemble (pool : ArrayPool) (buf : RentedArray) (prevIndex segmentLength : Nat) :
    LineM Unit := do
  let b ← get
  let lineLength := queuedLength b.recvQueue + segmentLength
  let line ← rent pool lineLength
  let (data, offset) ← copyQueue line.data 0 b.recvQueue
  let data ← appendRemaining buf prevIndex segmentLength data offset
  if lineLength > 0 then
    emit (.onNext ⟨{ line with data := data }, 0, lineLength⟩)

/-- Queue what is left of `buf` after the last newline: a copy, or `buf` itself when it held no
newline at all. -/
def store (pool : ArrayPool) (buf : RentedArray) (bufferSize prevIndex remaining : Nat) :
    LineM Unit := do
  if prevIndex ≠ 0 then
    let segmentLength := bufferSize - prevIndex
    if segmentLength > 0 then
      let fragment ← rent pool segmentLength
      let data ← Base.liftExcept (arrayCopy buf.data prevIndex fragment.data 0 segmentLength)
      enqueue ⟨{ fragment with data := data }, 0, segmentLength⟩
  else
    enqueue ⟨buf, 0, remaining⟩
    keep

/-- `onError` when the queue has outgrown the limit. -/
def preventFlooding : LineM Unit := do
  let b ← get
  match exceeded b.maxLength (queuedLength b.recvQueue) with
  | some limit => emit (.onError (.incomingRequest limit))
  | none => return ()

/-- The `while (remaining > 0)` loop.  It ends: every turn that goes on takes at least the newline
it found off `remaining`. -/
def receiveLoop (pool : ArrayPool) (forceNewLine : Bool) (buf : RentedArray) (bufferSize : Nat)
    (prevIndex remaining : Nat) : LineM Unit := do
  if _more : 0 < remaining then
    let b ← get
    match indexOf buf.data 0x0a prevIndex (buf.data.length - prevIndex), forceNewLine with
    | some index, false =>
        if index + 1 = bufferSize ∧ b.recvQueue = [] then
          -- fast path: `buf` itself becomes the line
          if index - prevIndex > 0 then
            emit (.onNext ⟨buf, prevIndex, index - prevIndex⟩)
            keep
        else
          assemble pool buf prevIndex (index - prevIndex)
          receiveLoop pool forceNewLine buf bufferSize (index + 1)
            (remaining - (index - prevIndex + 1))
    | _, true => assemble pool buf prevIndex (bufferSize - prevIndex)
    | none, false =>
        store pool buf bufferSize prevIndex remaining
        preventFlooding
  else return ()
termination_by remaining

/-- The body of the `try` block, once `buf` is rented. -/
def receiveInto {T : Type} (pool : ArrayPool) (buffer : T) (bufferSize : Nat)
    (readBuffer : T → Bytes → Nat → Except NetException Bytes) (forceNewLine : Bool)
    (buf : RentedArray) : LineM Unit := do
  -- clear left-over contents
  let cleared := if buf.data.length > bufferSize
    then arrayClear buf.data bufferSize (buf.data.length - bufferSize) else buf.data
  let data ← Base.liftExcept (readBuffer buffer cleared bufferSize)
  receiveLoop pool forceNewLine { buf with data := data } bufferSize 0 bufferSize

/-- `PooledLineBuffer.Receive`. -/
def receive {T : Type} (pool : ArrayPool) (buffer : T) (bufferSize : Nat)
    (readBuffer : T → Bytes → Nat → Except NetException Bytes) (forceNewLine : Bool := false) :
    LineM Unit := do
  let b ← get
  if bufferSize = 0 then return ()
  else match exceeded b.maxLength bufferSize with
  | some limit => emit (.onError (.incomingData limit))
  | none =>
      let buf ← rent pool bufferSize
      modify fun b => { b with keepLease := false }
      Base.andFinally (receiveInto pool buffer bufferSize readBuffer forceNewLine buf) do
        let b ← get
        if b.keepLease then return () else giveBack buf

/-- `Dispose`: every queued fragment is given back. -/
def disposeQueue : List PooledArraySegment → LineM Unit
  | [] => return ()
  | fragment :: rest => do
      dequeue fragment rest
      giveBack fragment.array
      disposeQueue rest

def dispose : LineM Unit := do disposeQueue (← get).recvQueue

/-! ## The callers' view -/

/-- Reading `count` bytes of a received chunk into `dst`, as `ReadBytes` and the tests'
`Array.Copy(src, 0, dst, 0, count)` do. -/
def readBytes (src : Bytes) (dst : Bytes) (count : Nat) : Except NetException Bytes :=
  arrayCopy src 0 dst 0 count

/-- One received chunk: the events of the call and the buffer after it. -/
def receiveChunk (pool : ArrayPool) (b : PooledLineBuffer) (chunk : Bytes) :
    List LineEvent × PooledLineBuffer :=
  let after := Base.stateAfter (receive pool chunk chunk.length readBytes) { b with log := [] }
  (after.log, after)

/-- The lines passed to `onNext`, each read as `Array[Offset .. Offset+Size)`. -/
def linesOf (log : List LineEvent) : List Bytes :=
  log.filterMap fun
    | .onNext segment => some segment.toArray
    | _ => none

/-- The exceptions passed to `onError`. -/
def errorsOf (log : List LineEvent) : List InvalidDataException :=
  log.filterMap fun
    | .onError exception => some exception
    | _ => none

/-- The bytes waiting in `_recvQueue`. -/
def pending (b : PooledLineBuffer) : Bytes := b.recvQueue.flatMap (·.toArray)

end PooledLineBuffer

end Hypepool
